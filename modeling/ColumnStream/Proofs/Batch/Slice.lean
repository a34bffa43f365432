/-
Slices of columns and of batches. A slice has the elements of its range, in order and with their nulls, and a slice
of it is a slice of the original. Slicing goes with encoding: it makes no difference whether rows are cut out before
or after a batch has gone through its encoding, and fewer rows never take a longer body.
-/
import ColumnStream.Proofs.Batch.Layout
import ColumnStream.Proofs.Column.Equality

namespace ColumnStream

/-! ## Columns -/

namespace Column

/-- `d` has elements `start` to `start + count` of `c`, and stores nothing anew for it. -/
structure Extracts (c d : Column) (start count : Nat) : Prop where
  type : d.type = c.type
  length : d.length = count
  stored : d.offset = c.offset + start ∧ d.buffers = c.buffers ∧ d.children = c.children
  values : ∃ values, c.values = .ok values ∧ d.values = .ok ((values.drop start).take count) ∧
    d.nullCount = ((values.drop start).take count).countP (·.isNull)
  again : ∀ first size, first + size ≤ count →
    ∃ e, d.slice first size = .ok e ∧ c.slice (start + first) size = .ok e

theorem Sound.extracts {c : Column} (sound : c.Sound) (small : c.Addressable) {start count : Nat}
    (inside : start + count ≤ c.length) :
    c.slice start count = .ok (c.part start count) ∧ c.Extracts (c.part start count) start count := by
  obtain ⟨cut, own⟩ := sound.slice_part small inside
  refine ⟨cut, rfl, rfl, ⟨rfl, rfl, rfl⟩, ⟨c.cells, sound.values_eq small, ?_, ?_⟩, fun first size within => ?_⟩
  · rw [own.values_eq (small.part _ _), cells_part inside]
  · rw [own.here.counted.nullCount_eq_cells, cells_part inside]
  · obtain ⟨cut, -⟩ := own.slice_part (small.part _ _) (show first + size ≤ (c.part start count).length from within)
    rw [part_part] at cut
    exact ⟨_, cut, (sound.slice_part small (by omega)).1⟩

theorem WellFormed.part_all {c : Column} (wf : c.WellFormed) : c.part 0 c.length = c :=
  (slice_ok wf.slice_all).1.symm

/-! ### What is stored of a slice -/

/-- The second range lies within the first, or it is empty. -/
def Within (start count start' count' : Nat) : Prop :=
  count' = 0 ∨ start ≤ start' ∧ start' + count' ≤ start + count

theorem Within.le {start count start' count' : Nat} (h : Within start count start' count') : count' ≤ count := by
  rcases h with none | ⟨low, high⟩ <;> omega

/-- A column of the same type, of which no more is stored. -/
structure Shrinks (c d : Column) : Prop where
  type : d.type = c.type
  stored : ∀ role ∈ c.type.roles, d.storedSize role ≤ c.storedSize role

section

variable {c : Column} {limit start count start' count' : Nat}

/-- Where the offsets rise, a smaller range has its own part of what a larger one covers. -/
theorem Rising.within (rising : c.length ≠ 0 → c.Rising limit) (inside : start + count ≤ c.length)
    (within : Within start count start' count') :
    (c.part start count).first + (c.part start count).span ≤ limit ∧
      Within (c.part start count).first (c.part start count).span (c.part start' count').first
        (c.part start' count').span := by
  unfold first span Within
  simp only [part_length, part_bound, Nat.add_zero]
  by_cases none : count' = 0
  · simp only [none, if_true, true_or, and_true]
    split
    · omega
    · have rising := rising (by omega)
      have le := rising.le_of_le (Nat.le_add_right start count) inside
      have last := rising.bound_le inside
      omega
  · rcases within with none' | ⟨low, high⟩
    · exact absurd none' none
    · have rising := rising (by omega)
      have before := rising.le_of_le low (by omega)
      have within' := rising.le_of_le (Nat.le_add_right start' count') (by omega)
      have after := rising.le_of_le high inside
      have last := rising.bound_le inside
      rw [if_neg none, if_neg none, if_neg (by omega), if_neg (by omega)]
      omega

theorem WellFormed.shrinks (wf : c.WellFormed) (inside : start + count ≤ c.length)
    (within : Within start count start' count') : Shrinks (c.part start count) (c.part start' count') := by
  have le := within.le
  refine ⟨rfl, fun role mem => ?_⟩
  cases role with
  | validity =>
    have nulls (none : (c.part start count).nullCount = 0) : (c.part start' count').nullCount = 0 := by
      rw [part, List.countP_eq_zero] at none ⊢
      intro i hi
      have hi := List.mem_range.1 hi
      have shifted := none (start' - start + i) (List.mem_range.2 (by unfold Within at within; omega))
      rwa [show start + (start' - start + i) = start' + i by unfold Within at within; omega] at shifted
    show (if (c.part start' count').nullCount = 0 then 0 else bytesFor count') ≤
      if (c.part start count).nullCount = 0 then 0 else bytesFor count
    split
    · exact Nat.zero_le _
    · rename_i some
      rw [if_neg fun none => some (nulls none)]
      exact bytesFor_mono le
  | offsets =>
    show (if count' = 0 then 0 else offsetWidth * (count' + 1)) ≤ if count = 0 then 0 else offsetWidth * (count + 1)
    by_cases none : count' = 0
    · rw [if_pos none]
      exact Nat.zero_le _
    · rw [if_neg none, if_neg (by omega)]
      exact Nat.mul_le_mul_left _ (by omega)
  | values =>
    unfold storedSize
    simp only [part_type, part_length]
    cases type : c.type with
    | boolean => exact bytesFor_mono le
    | fixed p => exact Nat.mul_le_mul_right _ le
    | binary | utf8 => exact (Rising.within (wf.rising_values (by simp [type])) inside within).2.le
    | list _ | struct _ => simp [type, DataType.roles] at mem

end

theorem coveredAll_shrinks {members : List Field} {children : List Column} {start count start' count' : Nat}
    (types : children.map (·.type) = members.map (·.type))
    (each : ∀ f ∈ members, ∀ child ∈ children, child.type = f.type → List.Forall₂ Shrinks
      (covered f.type (child.part start count)) (covered f.type (child.part start' count'))) :
    List.Forall₂ Shrinks (coveredAll members children start count) (coveredAll members children start' count') := by
  induction members generalizing children with
  | nil =>
    rw [List.map_nil, List.map_eq_nil_iff] at types
    subst types
    exact .nil
  | cons f members ih =>
    obtain ⟨child, children, rfl, type, types⟩ := List.map_eq_cons_iff.1 types
    have first := each f (List.mem_cons_self ..) child (List.mem_cons_self ..) type
    have rest := ih types fun g hg c hc => each g (List.mem_cons_of_mem _ hg) c (List.mem_cons_of_mem _ hc)
    exact List.rel_append first rest

/-- Of a smaller range no more is stored, of the columns below it either. -/
theorem covered_shrinks (t : DataType) : ∀ c : Column, c.Sound → c.type = t → ∀ start count start' count',
    start + count ≤ c.length → Within start count start' count' →
    List.Forall₂ Shrinks (covered t (c.part start count)) (covered t (c.part start' count')) := by
  -- By induction on the type: what is covered below is again a range of the child, the smaller one within the larger.
  induction t using DataType.induct with
  | flat t isFlat =>
    intro c sound type start count start' count' inside within
    have alone (d : Column) : covered t d = [d] := by
      cases t <;> first | rfl | cases isFlat
    rw [alone, alone]
    exact .cons (sound.here.shrinks inside within) .nil
  | list item ih =>
    intro c sound type start count start' count' inside within
    obtain ⟨child, children, childType, childSound, rising⟩ := sound.children_of_list type
    obtain ⟨name, t, nullable⟩ := item
    obtain ⟨below, within'⟩ := Rising.within rising inside within
    have head (start count : Nat) : covered (.list ⟨name, t, nullable⟩) (c.part start count) =
        c.part start count :: covered t (child.part (c.part start count).first (c.part start count).span) := by
      rw [covered, part_children, children]
      rfl
    rw [head, head]
    exact .cons (sound.here.shrinks inside within) (ih child childSound childType _ _ _ _ below within')
  | struct members ih =>
    intro c sound type start count start' count' inside within
    have types := sound.here.children
    have filled := sound.here.filled
    simp only [type, DataType.children] at types
    simp only [Filled, type, stop] at filled
    refine .cons (sound.here.shrinks inside within) (coveredAll_shrinks types fun f hf child hc childType => ?_)
    have long := filled child hc
    refine ih f hf child (sound.child hc) childType _ _ _ _ ?_ ?_
    · simp only [part_offset, part_length]
      omega
    · unfold Within at *
      simp only [part_offset, part_length]
      omega

/-! ### The size of a body -/

theorem size_bodyOf {columns : List (Column × Role)} {buffers : List Buffer}
    (stores : List.Forall₂ Stores columns buffers) :
    (Batch.bodyOf buffers).size = (columns.map fun slot => padded (slot.1.storedSize slot.2)).sum := by
  induction stores with
  | nil => rfl
  | cons first _ ih =>
    rw [Batch.bodyOf_cons, Array.size_append, Buffer.size_pad, first.size, ih, List.map_cons, List.sum_cons]

theorem padded_mono {m n : Nat} (h : m ≤ n) : padded m ≤ padded n := by
  unfold padded padding alignment
  omega

theorem slots_shrink {columns parts : List Column} (shrinks : List.Forall₂ Shrinks columns parts) :
    ((slots parts).map fun slot => padded (slot.1.storedSize slot.2)).sum ≤
      ((slots columns).map fun slot => padded (slot.1.storedSize slot.2)).sum := by
  induction shrinks with
  | nil => exact le_refl _
  | @cons c d columns parts first _ ih =>
    have own : ((d.type.roles.map (d, ·)).map fun slot => padded (slot.1.storedSize slot.2)).sum ≤
        ((c.type.roles.map (c, ·)).map fun slot => padded (slot.1.storedSize slot.2)).sum := by
      rw [first.type, List.map_map, List.map_map]
      exact List.sum_le_sum fun role mem => padded_mono (first.stored role mem)
    simp only [slots, List.flatMap_cons, List.map_append, List.sum_append] at ih ⊢
    omega

end Column

/-! ## Batches -/

namespace Batch

/-- Rows `start` to `start + count` of a batch. -/
def part (b : Batch) (start count : Nat) : Batch := ⟨b.schema, count, b.columns.map (·.part start count)⟩

theorem part_part (b : Batch) (start count first size : Nat) :
    (b.part start count).part first size = b.part (start + first) size := by
  simp [part, Column.part_part]

theorem InMemory.part {b : Batch} (small : b.InMemory) (start count : Nat) : (b.part start count).InMemory :=
  ⟨small.nodes, small.buffers, List.forall_mem_map.2 fun c mem => (small.bitmaps c mem).part start count⟩

namespace Sound

variable {b : Batch} {start count : Nat}

theorem length (h : b.Sound) : ∀ c ∈ b.columns, c.length = b.numRows := by
  intro c mem
  obtain ⟨f, -, obeys⟩ := exists_left_of_mem h.obeys c mem
  exact obeys.length

theorem slice_part (h : b.Sound) (small : b.InMemory) (inside : start + count ≤ b.numRows) :
    b.slice start count = .ok (b.part start count) ∧ (b.part start count).Sound := by
  have word := h.word
  have columns : b.columns.mapM (fun c => c.slice start count) = .ok (b.columns.map (·.part start count)) :=
    mapM_eq_ok fun c mem =>
      ((h.sound c mem).slice_part (small.bitmaps c mem) (by rw [h.length c mem]; exact inside)).1
  have cut : b.slice start count = .ok (b.part start count) := by
    rw [Batch.slice, Word.add_eq_ok (by omega), ok_bind, if_pos inside, columns]
    rfl
  exact ⟨cut, h.slice cut⟩

theorem covered_shrinks (h : b.Sound) (inside : start + count ≤ b.numRows) :
    List.Forall₂ Column.Shrinks b.covered (b.part start count).covered := by
  have each : ∀ c ∈ b.columns, c.Sound ∧ start + count ≤ c.length := fun c mem =>
    ⟨h.sound c mem, by rwa [h.length c mem]⟩
  unfold covered part
  rw [List.flatMap_map]
  generalize b.columns = columns at each
  induction columns with
  | nil => exact .nil
  | cons c columns ih =>
    obtain ⟨⟨own, inside⟩, others⟩ := List.forall_mem_cons.1 each
    have first := Column.covered_shrinks c.type c own rfl 0 c.length start count (by omega) (.inr (by omega))
    rw [own.here.part_all] at first
    exact List.rel_append first (ih others)

/-- The body of fewer rows is no longer than that of all. -/
theorem body_shrinks (h : b.Sound) (h' : (b.part start count).Sound) (inside : start + count ≤ b.numRows) {d d' : Batch}
    (packed : b.Packed d) (packed' : (b.part start count).Packed d') : d'.spreadBody.size ≤ d.spreadBody.size := by
  have whole := lists_of_packs packed.columns h.sound
  have cut := lists_of_packs packed'.columns h'.sound
  rw [spreadBody, spreadBody, Column.size_bodyOf cut.buffers, Column.size_bodyOf whole.buffers]
  exact Column.slots_shrink (h.covered_shrinks inside)

end Sound

/-! ### Cut out before or after -/

theorem Packed.inMemory {b d : Batch} (packed : b.Packed d) (h : b.Sound) (small : b.InMemory) : d.InMemory := by
  refine ⟨packed.schema ▸ small.nodes, packed.schema ▸ small.buffers, fun c' mem => ?_⟩
  obtain ⟨c, hc, packs⟩ := exists_left_of_mem packed.columns c' mem
  exact (Column.Packs.kept c.type c c' (h.sound c hc) rfl packs).addressable (small.bitmaps c hc)

/-- Packed columns of slices have the cells of slices of packed columns. -/
theorem same_of_packs {columns whole cut : List Column} {start count : Nat}
    (packs : List.Forall₂ (fun c d => Column.Packs c.type c d) columns whole)
    (packs' : List.Forall₂ (fun c d => Column.Packs c.type c d) (columns.map (·.part start count)) cut)
    (each : ∀ c ∈ columns, c.Sound ∧ (c.part start count).Sound ∧ start + count ≤ c.length) :
    List.Forall₂ (fun x y => x.type = y.type ∧ x.cells = y.cells) cut (whole.map (·.part start count)) := by
  induction packs generalizing cut with
  | nil =>
    cases packs'
    exact .nil
  | @cons c d columns whole first _ ih =>
    obtain ⟨own, others⟩ := List.forall_mem_cons.1 each
    obtain ⟨d', cut, first', rest, rfl⟩ := List.forall₂_cons_left_iff.1 packs'
    obtain ⟨sound, partSound, inside⟩ := own
    refine .cons ⟨first'.own.type.trans first.own.type.symm, ?_⟩ (ih rest others)
    rw [first'.cells_eq partSound, Column.cells_part inside,
      Column.cells_part (show start + count ≤ d.length by rw [first.own.length]; exact inside), first.cells_eq sound]

/-- Rows that are cut out after a batch went through its encoding equal those that went through theirs. -/
theorem Sound.decode_slice {b : Batch} (h : b.Sound) (small : b.InMemory) {start count : Nat}
    (inside : start + count ≤ b.numRows) :
    ∃ header body, b.layOut = .ok (header, body) ∧ (body.size < wordSize →
      ∃ metadata whole cut metadata' body' own, b.encode = .ok (metadata, body) ∧
        decode b.schema metadata body = .ok whole ∧ whole.slice start count = .ok cut ∧
        (b.part start count).encode = .ok (metadata', body') ∧ body'.size ≤ body.size ∧
        decode b.schema metadata' body' = .ok own ∧ own.equal cut = .ok true) := by
  obtain ⟨-, partSound⟩ := h.slice_part small inside
  have partSmall := small.part start count
  obtain ⟨d, packed, laid, encoded⟩ := h.encode_eq small
  obtain ⟨d', packed', -, encoded'⟩ := partSound.encode_eq partSmall
  refine ⟨_, _, laid, fun word => ?_⟩
  have shorter := h.body_shrinks partSound inside packed packed'
  obtain ⟨metadata, written, ran⟩ := encoded word
  obtain ⟨metadata', written', ran'⟩ := encoded' (shorter.trans_lt word)
  have inside' : start + count ≤ d.numRows := by rw [packed.rows]; exact inside
  obtain ⟨cut, cutSound⟩ := (packed.sound h).slice_part (packed.inMemory h small) inside'
  have read := packed.decode_eq h word written
  have read' := packed'.decode_eq partSound (shorter.trans_lt word) written'
  refine ⟨metadata, d, d.part start count, metadata', d'.spreadBody, d', ran, read, cut, ran', shorter, read', ?_⟩
  have same := same_of_packs packed.columns packed'.columns fun c mem =>
    ⟨h.sound c mem, partSound.sound _ (List.mem_map_of_mem mem), by rw [h.length c mem]; exact inside⟩
  rw [equal, if_pos ⟨packed'.schema.trans packed.schema.symm, packed'.rows⟩]
  exact equalColumns_of_cells same (packed'.sound partSound).sound cutSound.sound
    (packed'.inMemory partSound partSmall).bitmaps ((packed.inMemory h small).part start count).bitmaps

/-- `b'` has rows `start` to `start + count` of `b`: slices of its columns, and of no others. -/
structure Extracts (b b' : Batch) (start count : Nat) : Prop where
  schema : b'.schema = b.schema
  rows : b'.numRows = count
  columns : List.Forall₂ (fun c d => c.slice start count = .ok d ∧ c.Extracts d start count) b.columns b'.columns
  again : ∀ first size, first + size ≤ count →
    ∃ e, b'.slice first size = .ok e ∧ b.slice (start + first) size = .ok e

theorem Sound.extracts {b : Batch} (h : b.Sound) (small : b.InMemory) {start count : Nat}
    (inside : start + count ≤ b.numRows) :
    b.slice start count = .ok (b.part start count) ∧ b.Extracts (b.part start count) start count := by
  obtain ⟨cut, own⟩ := h.slice_part small inside
  refine ⟨cut, rfl, rfl, ?_, fun first size within => ?_⟩
  · refine List.forall₂_map_right_iff.2 (List.forall₂_same.2 fun c mem => ?_)
    exact (h.sound c mem).extracts (small.bitmaps c mem) (by rwa [h.length c mem])
  · obtain ⟨cut, -⟩ := own.slice_part (small.part _ _) (show first + size ≤ (b.part start count).numRows from within)
    rw [part_part] at cut
    exact ⟨_, cut, (h.slice_part small (by omega)).1⟩

end Batch

/-! ## All slices -/

/-- No slice within a column or a batch fails. It has the values of its range, of every type and at every depth, and
their nulls; a slice of a slice is the slice that could have been taken at once, down to its buffers. A batch may be
cut before it is encoded, or after it was decoded, with rows that are found equal. -/
theorem slice_extracts :
    (∀ c : Column, c.Obtained → c.Addressable → ∀ start count, start + count ≤ c.length →
      ∃ d, c.slice start count = .ok d ∧ c.Extracts d start count) ∧
    (∀ b : Batch, b.Obtained → b.InMemory → ∀ start count, start + count ≤ b.numRows →
      ∃ b', b.slice start count = .ok b' ∧ b.Extracts b' start count ∧
        ∃ header body, b.layOut = .ok (header, body) ∧ (body.size < wordSize →
          ∃ metadata whole cut metadata' body' own, b.encode = .ok (metadata, body) ∧
            Batch.decode b.schema metadata body = .ok whole ∧ whole.slice start count = .ok cut ∧
            b'.encode = .ok (metadata', body') ∧ body'.size ≤ body.size ∧
            Batch.decode b.schema metadata' body' = .ok own ∧ own.equal cut = .ok true)) := by
  constructor
  · intro c obtained small start count inside
    exact ⟨_, obtained.reachable.sound.extracts small inside⟩
  · intro b obtained small start count inside
    have sound := obtained.reachable.sound
    obtain ⟨cut, extracts⟩ := sound.extracts small inside
    exact ⟨_, cut, extracts, sound.decode_slice small inside⟩

/-- Of two lists the second one, as a column and in a batch, cut out before it is encoded and after it was decoded. -/
theorem slice_extracts_lists :
    Batch.lists.Extracts (Batch.lists.part 1 1) 1 1 ∧
      Batch.Extracts ⟨Batch.secondList.schema, 2, [Batch.lists]⟩ Batch.secondList 1 1 ∧
      ∃ metadata whole cut metadata' own,
        Batch.encode ⟨Batch.secondList.schema, 2, [Batch.lists]⟩ = .ok (metadata, Batch.listsBody) ∧
        Batch.decode Batch.secondList.schema metadata Batch.listsBody = .ok whole ∧ whole.slice 1 1 = .ok cut ∧
        Batch.secondList.encode = .ok (metadata', #[0, 0, 0, 0, 2, 0, 0, 0, 2, 3, 0, 0, 0, 0, 0, 0]) ∧
        Batch.decode Batch.secondList.schema metadata' #[0, 0, 0, 0, 2, 0, 0, 0, 2, 3, 0, 0, 0, 0, 0, 0] = .ok own ∧
        own.equal cut = .ok true := by
  have lists : Batch.lists.Addressable := .intro (fun validity found => nomatch found)
    (Batch.inMemory_secondList.bitmaps _ (List.mem_singleton.2 rfl)).children
  have small : Batch.InMemory ⟨Batch.secondList.schema, 2, [Batch.lists]⟩ :=
    ⟨by decide, by decide, by simpa using lists⟩
  obtain ⟨columns, batches⟩ := slice_extracts
  obtain ⟨d, sliced, extracts⟩ := columns Batch.lists Batch.obtained_lists lists 1 1 (by decide)
  obtain ⟨b', sliced', extracts', header, body, laid, through⟩ :=
    batches _ Batch.obtained_bothLists small 1 1 (by decide)
  cases sliced.symm.trans (show Batch.lists.slice 1 1 = .ok (Batch.lists.part 1 1) from rfl)
  cases sliced'.symm.trans Batch.slice_bothLists
  have stored : Batch.layOut ⟨Batch.secondList.schema, 2, [Batch.lists]⟩ = .ok (_, Batch.listsBody) := rfl
  obtain ⟨rfl, rfl⟩ := Prod.mk.inj (Except.ok.inj (laid.symm.trans stored))
  obtain ⟨metadata, whole, cut, metadata', body', own, written, read, sliced, written', -, read', equal⟩ :=
    through (by decide)
  obtain ⟨_, ran⟩ : ∃ metadata, Batch.secondList.encode =
      .ok (metadata, #[0, 0, 0, 0, 2, 0, 0, 0, 2, 3, 0, 0, 0, 0, 0, 0]) := ⟨_, rfl⟩
  obtain ⟨rfl, rfl⟩ := Prod.mk.inj (Except.ok.inj (written'.symm.trans ran))
  exact ⟨extracts, extracts', metadata, whole, cut, _, own, written, read, sliced, ran, read', equal⟩

end ColumnStream
