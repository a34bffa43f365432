/-
Reading a body back. The regions that the encoder lists lie in the body one after another, each over
the bytes of its buffer; a walk that starts at the nodes and regions of a sound column without an
offset takes exactly these off the tables and returns that column.
-/
import ColumnStream.Batch.Decode
import ColumnStream.Proofs.Batch.Packed

namespace ColumnStream

/-- Fields and columns of the same types, side by side. -/
theorem forall₂_of_types {fields : List Field} {columns : List Column} {p : Field → Column → Prop}
    (types : columns.map (·.type) = fields.map (·.type)) (each : ∀ f, ∀ c ∈ columns, c.type = f.type → p f c) :
    List.Forall₂ p fields columns := by
  induction fields generalizing columns with
  | nil =>
    rw [List.map_nil, List.map_eq_nil_iff] at types
    exact types ▸ .nil
  | cons f fields ih =>
    obtain ⟨c, columns, rfl, type, types⟩ := List.map_eq_cons_iff.1 types
    exact .cons (each f c (List.mem_cons_self ..) type) (ih types fun g d hd => each g d (List.mem_cons_of_mem _ hd))

/-! ## Where the buffers lie -/

/-- The region lies inside the body, over the bytes of the buffer. -/
structure Region.Covers (body : Buffer) (r : Region) (b : Buffer) : Prop where
  length : r.length = b.size
  word : r.offset + r.length < wordSize
  inside : r.offset + r.length ≤ body.size
  bytes : body.extract r.offset (r.offset + r.length) = b

/-- Each of the regions lies over one of the buffers, in their order. -/
def Located (body : Buffer) (regions : List Region) (buffers : List Buffer) : Prop :=
  List.Forall₂ (Region.Covers body) regions buffers

theorem Located.split {body : Buffer} {regions : List Region} {first rest : List Buffer}
    (h : Located body regions (first ++ rest)) :
    ∃ before after, regions = before ++ after ∧ Located body before first ∧ Located body after rest :=
  ⟨_, _, (List.take_append_drop first.length regions).symm, List.forall₂_take_append _ _ _ h,
    List.forall₂_drop_append _ _ _ h⟩

theorem Located.word {body : Buffer} {regions : List Region} {buffers : List Buffer}
    (h : Located body regions buffers) : ∀ r ∈ regions, r.offset + r.length < wordSize := by
  induction h with
  | nil => simp
  | cons covers _ ih => exact List.forall_mem_cons.2 ⟨covers.word, ih⟩

namespace Batch

theorem bodyOf_cons (b : Buffer) (buffers : List Buffer) : bodyOf (b :: buffers) = b.pad ++ bodyOf buffers := by
  rw [show b :: buffers = [b] ++ buffers from rfl, bodyOf_append]
  simp [bodyOf]

/-- The regions of a body's buffers, whatever stands before them. -/
theorem located_regionsFrom (before : Buffer) (buffers : List Buffer)
    (word : (before ++ bodyOf buffers).size < wordSize) :
    Located (before ++ bodyOf buffers) (regionsFrom before.size buffers) buffers := by
  induction buffers generalizing before with
  | nil => exact .nil
  | cons b buffers ih =>
    have step : before ++ bodyOf (b :: buffers) = before ++ b.pad ++ bodyOf buffers := by
      rw [bodyOf_cons, Array.append_assoc]
    have size : (before ++ b.pad).size = before.size + padded b.size := by rw [Array.size_append, Buffer.size_pad]
    have inside : before.size + b.size ≤ (before ++ bodyOf (b :: buffers)).size := by
      rw [step, Array.size_append, size]
      have := le_padded b.size
      omega
    rw [step] at word
    refine .cons ⟨rfl, by rw [step] at inside; exact lt_of_le_of_lt inside word, inside, ?_⟩ ?_
    · simp only [step, Buffer.pad, Array.append_assoc]
      apply Array.toList_inj.1
      simp
    · rw [step, ← size]
      exact ih _ word

theorem located_bodyOf {buffers : List Buffer} (word : (bodyOf buffers).size < wordSize) :
    Located (bodyOf buffers) (regionsFrom 0 buffers) buffers := by
  have := located_regionsFrom #[] buffers (by simpa using word)
  simpa using this

theorem length_regionsFrom (start : Nat) (buffers : List Buffer) :
    (regionsFrom start buffers).length = buffers.length := by
  induction buffers generalizing start with
  | nil => rfl
  | cons b buffers ih => rw [regionsFrom, List.length_cons, List.length_cons, ih]

end Batch

/-! ## One column of the walk -/

namespace Walk

theorem bind_apply {α β : Type} {x : Walk α} {f : α → Walk β} {a : α} {tables left : Tables}
    (h : x tables = .ok (a, left)) : (x >>= f) tables = f a left := by
  show (x tables >>= fun p => f p.1 p.2) = _
  rw [h, ok_bind]

theorem cut_eq {body : Buffer} {c : Column} (wf : c.WellFormed) (offset : c.offset = 0) {role : Role}
    (mem : role ∈ c.type.roles) {r : Region} (covers : r.Covers body (c.bytesOf role)) (index : Nat) :
    cut body c.type c.node role index r = .ok (c.bytesOf role) := by
  have word := covers.word
  have inside := covers.inside
  have bytes : body.slice r.offset r.length = .ok (c.bytesOf role) := by
    rw [Buffer.slice_eq_ok inside, covers.bytes]
  have stop : c.stop = c.length := by rw [Column.stop, offset, Nat.zero_add]
  unfold cut
  rw [if_neg (by omega)]
  split
  · exact bytes
  · rename_i needed
    suffices enough : (c.type.leastLength? role c.node.length).getD (wordSize - 1) ≤ r.length by
      simp only
      rw [if_neg (Nat.not_lt.2 enough)]
      exact bytes
    rw [covers.length, show c.node.length = c.stop from stop.symm]
    by_cases other : role = .validity
    · subst other
      -- Without a bitmap the region is empty and no null is declared, which the first case is about.
      have counted := wf.counted
      rw [Column.Counted, Column.validity?_eq wf.buffers] at counted
      by_cases absent : (c.bytesOf .validity).isEmpty = true
      · rw [if_pos absent] at counted
        have empty : r.length = 0 := by rw [covers.length, Array.isEmpty_iff_size_eq_zero.1 absent]
        exact absurd ⟨rfl, empty, counted⟩ needed
      · rw [if_neg absent] at counted
        exact counted.1
    · obtain ⟨least, enough, size⟩ := wf.room role mem other
      rw [enough]
      exact size

theorem buffers_eq {body : Buffer} {c : Column} (wf : c.WellFormed) (offset : c.offset = 0) {roles : List Role}
    (sub : ∀ role ∈ roles, role ∈ c.type.roles) {regions : List Region}
    (located : Located body regions (roles.map c.bytesOf)) (nodes : List Node) (rest : List Region) (taken : Nat) :
    buffers body c.type c.node roles ⟨nodes, regions ++ rest, taken⟩ =
      .ok (roles.map c.bytesOf, ⟨nodes, rest, taken + regions.length⟩) := by
  induction roles generalizing regions taken with
  | nil =>
    cases located
    rfl
  | cons role roles ih =>
    obtain ⟨r, regions, covers, located', rfl⟩ := List.forall₂_cons_right_iff.1 located
    have first : buffer body c.type c.node role ⟨nodes, r :: regions ++ rest, taken⟩ =
        .ok (c.bytesOf role, ⟨nodes, regions ++ rest, taken + 1⟩) := by
      show (cut body c.type c.node role taken r >>= fun b => pure (b, _)) = _
      rw [cut_eq wf offset (sub role (by simp)) covers, ok_bind]
      rfl
    have rest' := ih (fun role hr => sub role (by simp [hr])) located' (taken + 1)
    rw [buffers, bind_apply first, bind_apply rest', List.length_cons, Nat.add_right_comm, Nat.add_assoc]
    rfl

/-! ## Whole columns -/

/-- The walk takes the column's nodes and regions off the tables, and returns the column. -/
def Takes (body : Buffer) (t : DataType) (c : Column) : Prop :=
  ∀ regions, Located body regions c.spread.buffers → ∀ nodes rest taken,
    column body t ⟨c.spread.nodes ++ nodes, regions ++ rest, taken⟩ =
      .ok (c, ⟨nodes, rest, taken + regions.length⟩)

theorem columns_eq {body : Buffer} {fields : List Field} {children : List Column}
    (each : List.Forall₂ (fun f c => Takes body f.type c) fields children) {regions : List Region}
    (located : Located body regions (Column.spreadAll children).buffers) (nodes : List Node) (rest : List Region)
    (taken : Nat) :
    columns body fields ⟨(Column.spreadAll children).nodes ++ nodes, regions ++ rest, taken⟩ =
      .ok (children, ⟨nodes, rest, taken + regions.length⟩) := by
  induction each generalizing regions taken with
  | nil =>
    cases located
    rfl
  | @cons f c fields children takes _ ih =>
    rw [Column.spreadAll, Flattened.buffers_append] at located
    obtain ⟨before, after, rfl, own, located⟩ := located.split
    have first := takes before own ((Column.spreadAll children).nodes ++ nodes) (after ++ rest) taken
    have others := ih located (taken + before.length)
    obtain ⟨name, t, nullable⟩ := f
    rw [Column.spreadAll, Flattened.nodes_append, columns, List.append_assoc, List.append_assoc, bind_apply first,
      bind_apply others, List.length_append, Nat.add_assoc]
    rfl

theorem takes_of_sound {body : Buffer} {c : Column} (sound : c.Sound) :
    Column.Everywhere (·.offset = 0) c → Takes body c.type c := by
  induction sound with
  | @intro c wf _ ih =>
    -- The tables begin with the column's own entries, then come those of its children, then the rest.
    intro start regions located nodes rest taken
    have each : List.Forall₂ (fun f child => Takes body f.type child) c.type.children c.children :=
      forall₂_of_types wf.children fun f child hc type => type ▸ ih child hc (start.children child hc)
    rw [Column.spread_eq, Flattened.buffers_append, Column.buffers_eq wf.buffers] at located
    obtain ⟨before, after, rfl, own, located⟩ := located.split
    have first := buffers_eq wf start.here (fun _ h => h) own ((Column.spreadAll c.children).nodes ++ nodes)
      (after ++ rest) taken
    have others := columns_eq each located nodes rest (taken + before.length)
    have node : Walk.node ⟨c.spread.nodes ++ nodes, before ++ after ++ rest, taken⟩ =
        .ok (c.node, ⟨(Column.spreadAll c.children).nodes ++ nodes, before ++ after ++ rest, taken⟩) := by
      rw [Column.spread_eq]
      rfl
    rw [column_eq, columnWith, bind_apply node, List.append_assoc, bind_apply first, bind_apply others]
    have whole :
        (⟨c.type, c.node.length, c.node.nullCount, 0, c.type.roles.map c.bytesOf, c.children⟩ : Column) = c := by
      obtain ⟨_, _, _, _, _, _⟩ := c
      rw [← Column.buffers_eq wf.buffers, ← start.here]
      rfl
    show (Column.assemble _ _ _ _ _ _ >>= fun d => pure (d, _)) = _
    rw [Column.assemble, whole, Column.check_eq_ok.2 wf, ok_bind, List.length_append, Nat.add_assoc]
    rfl

end Walk

end ColumnStream
