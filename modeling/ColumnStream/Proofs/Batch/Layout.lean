/-
The layout of a body. Of every column of a batch, and of what it covers of the columns below it, the header lists a
node, and a region for each buffer; the regions tile the body from its start to its end, each followed by the zeros
that fill it up to the alignment, and their lengths follow from the numbers of elements and of nulls alone.
-/
import ColumnStream.Proofs.Batch.Stable
import ColumnStream.Proofs.Batch.Tables

namespace ColumnStream

theorem exists_left_of_mem {α β : Type} {R : α → β → Prop} {as : List α} {bs : List β} (h : List.Forall₂ R as bs) :
    ∀ b ∈ bs, ∃ a ∈ as, R a b := by
  induction h with
  | nil => simp
  | cons first _ ih =>
    refine List.forall_mem_cons.2 ⟨⟨_, List.mem_cons_self .., first⟩, fun b mem => ?_⟩
    obtain ⟨a, ha, holds⟩ := ih b mem
    exact ⟨a, List.mem_cons_of_mem _ ha, holds⟩

/-! ## Regions side by side -/

/-- The regions lie one after another from `start` to `stop`, each of them filled up to the alignment. -/
inductive Tiles : (start : Nat) → List Region → (stop : Nat) → Prop
  | nil (stop : Nat) : Tiles stop [] stop
  | cons {r : Region} {regions : List Region} {stop : Nat} :
      Tiles (r.offset + padded r.length) regions stop → Tiles r.offset (r :: regions) stop

namespace Tiles

variable {start stop : Nat} {regions : List Region}

/-- Every region starts and ends inside what is tiled. -/
theorem inside (h : Tiles start regions stop) :
    start ≤ stop ∧ ∀ r ∈ regions, start ≤ r.offset ∧ r.offset + r.length ≤ stop := by
  induction h with
  | nil => simp
  | @cons r regions stop _ ih =>
    obtain ⟨le, rest⟩ := ih
    have length := le_padded r.length
    refine ⟨by omega, List.forall_mem_cons.2 ⟨⟨le_refl _, by omega⟩, fun s hs => ?_⟩⟩
    have := rest s hs
    omega

theorem aligned (h : Tiles start regions stop) (first : alignment ∣ start) :
    (∀ r ∈ regions, alignment ∣ r.offset) ∧ alignment ∣ stop := by
  induction h with
  | nil => exact ⟨by simp, first⟩
  | @cons r regions stop _ ih =>
    obtain ⟨rest, last⟩ := ih (Nat.dvd_add first (alignment_dvd_padded _))
    exact ⟨List.forall_mem_cons.2 ⟨first, rest⟩, last⟩

/-- No two regions overlap. -/
theorem apart (h : Tiles start regions stop) : regions.Pairwise fun r s => r.offset + r.length ≤ s.offset := by
  induction h with
  | nil => exact .nil
  | @cons r regions stop tiles ih =>
    refine .cons (fun s hs => ?_) ih
    have := (tiles.inside.2 s hs).1
    have length := le_padded r.length
    omega

theorem of_empty (h : Tiles start regions stop) (none : ∀ r ∈ regions, r.length = 0) :
    stop = start ∧ ∀ r ∈ regions, r = ⟨start, 0⟩ := by
  induction h with
  | nil => simp
  | @cons r regions stop _ ih =>
    obtain ⟨own, rest⟩ := List.forall_mem_cons.1 none
    rw [own] at ih
    obtain ⟨last, rest⟩ := ih rest
    obtain ⟨offset, length⟩ := r
    exact ⟨last, List.forall_mem_cons.2 ⟨by rw [← own], rest⟩⟩

end Tiles

namespace Batch

theorem tiles_regionsFrom (start : Nat) (buffers : List Buffer) :
    Tiles start (regionsFrom start buffers) (start + (bodyOf buffers).size) := by
  induction buffers generalizing start with
  | nil => exact .nil start
  | cons b buffers ih =>
    rw [bodyOf_cons, Array.size_append, Buffer.size_pad, ← Nat.add_assoc]
    exact .cons (r := ⟨start, b.size⟩) (ih _)

/-- What no region holds is zero. -/
theorem getElem?_between (before : Buffer) (buffers : List Buffer) {i : Nat} (low : before.size ≤ i)
    (high : i < (before ++ bodyOf buffers).size)
    (outside : ∀ r ∈ regionsFrom before.size buffers, i < r.offset ∨ r.offset + r.length ≤ i) :
    (before ++ bodyOf buffers)[i]? = some 0 := by
  induction buffers generalizing before with
  | nil =>
    rw [Array.size_append, show (bodyOf []).size = 0 from rfl] at high
    omega
  | cons b buffers ih =>
    obtain ⟨own, others⟩ := List.forall_mem_cons.1 outside
    have step : before ++ bodyOf (b :: buffers) = before ++ b.pad ++ bodyOf buffers := by
      rw [bodyOf_cons, Array.append_assoc]
    have size : (before ++ b.pad).size = before.size + padded b.size := by rw [Array.size_append, Buffer.size_pad]
    rw [step] at high ⊢
    by_cases later : (before ++ b.pad).size ≤ i
    · exact ih _ later high (by rwa [size])
    · -- The byte comes after the buffer, but before the next one: it is one of the zeros in between.
      have past : before.size + b.size ≤ i := by
        rcases own with early | past
        · exact absurd low (Nat.not_le.2 early)
        · exact past
      rw [Array.getElem?_append_left (by omega), Buffer.pad, ← Array.append_assoc,
        Array.getElem?_append_right (by rw [Array.size_append]; exact past), Buffer.zeros, Array.getElem?_replicate,
        if_pos]
      rw [size, padded] at later
      rw [Array.size_append]
      omega

end Batch

/-! ## What is stored of a column -/

namespace Column

mutual
/-- The column, and below it what its elements cover, in the order of the walk. -/
def covered : DataType → Column → List Column
  | .list ⟨_, t, _⟩, c =>
    c :: match c.children.head? with
      | some child => covered t (child.part c.first c.span)
      | none => []
  | .struct members, c => c :: coveredAll members c.children c.offset c.length
  | _, c => [c]

/-- What `count` elements from `start` on cover of each child. -/
def coveredAll : List Field → List Column → (start count : Nat) → List Column
  | ⟨_, t, _⟩ :: members, child :: children, start, count =>
    covered t (child.part start count) ++ coveredAll members children start count
  | _, _, _, _ => []
end

/-- The bytes that are stored for that role. -/
def storedSize (c : Column) : Role → Nat
  | .validity => if c.nullCount = 0 then 0 else bytesFor c.length
  | .offsets => if c.length = 0 then 0 else offsetWidth * (c.length + 1)
  | .values =>
    match c.type with
    | .boolean => bytesFor c.length
    | .fixed p => c.length * p.width
    | _ => c.span

/-- The bytes are as many as are stored for that role of the column, and offsets begin with a zero. -/
structure Stores (slot : Column × Role) (b : Buffer) : Prop where
  size : b.size = slot.1.storedSize slot.2
  start : slot.2 = .offsets → slot.1.length ≠ 0 → offsetEntry b 0 = .ok 0

/-- The buffers of some columns, in the order of the roles. -/
def slots (columns : List Column) : List (Column × Role) := columns.flatMap fun c => c.type.roles.map (c, ·)

theorem slots_append (columns columns' : List Column) :
    slots (columns ++ columns') = slots columns ++ slots columns' := List.flatMap_append

/-- The nodes are those of the columns, and the buffers what is stored of them. -/
structure Lists (columns : List Column) (flat : Flattened) : Prop where
  nodes : flat.nodes = columns.map node
  buffers : List.Forall₂ Stores (slots columns) flat.buffers

theorem Lists.nil : Lists [] .empty := ⟨rfl, .nil⟩

theorem Lists.append {columns columns' : List Column} {flat flat' : Flattened} (h : Lists columns flat)
    (h' : Lists columns' flat') : Lists (columns ++ columns') (flat ++ flat') := by
  refine ⟨?_, ?_⟩
  · rw [Flattened.nodes_append, h.nodes, h'.nodes, List.map_append]
  · rw [Flattened.buffers_append, slots_append]
    exact List.rel_append h.buffers h'.buffers

/-! ### The buffers of one packed column -/

namespace Own

variable {c d : Column}

theorem stores_validity (own : Own c d) : Stores (c, .validity) (d.bytesOf .validity) := by
  refine ⟨?_, fun h => nomatch h⟩
  show _ = if c.nullCount = 0 then 0 else bytesFor c.length
  split
  · rename_i none
    rw [own.absent none]
    rfl
  · exact (own.stored (by omega)).1

theorem stores_offsets (own : Own c d) (wf : c.WellFormed) (mem : .offsets ∈ c.type.roles) :
    Stores (c, .offsets) (d.bytesOf .offsets) := by
  have same := own.offsets_eq mem
  refine ⟨?_, fun _ some => ?_⟩
  · show _ = if c.length = 0 then 0 else offsetWidth * (c.length + 1)
    rw [same, size_offsetBuffer]
    split
    · rename_i none
      rw [ownOffsets, if_pos none]
      rfl
    · rename_i some
      rw [length_ownOffsets some]
  · obtain ⟨readable, zero⟩ := own.bound_eq wf mem (wf.rising mem some) same some (Nat.zero_le _)
    rw [bound, Nat.sub_self, own.offset, Nat.zero_add] at zero
    rwa [own.offset, Nat.zero_add, Readable, zero] at readable

theorem stores_values (own : Own c d) (wf : c.WellFormed) (mem : .values ∈ c.type.roles) :
    Stores (c, .values) (d.bytesOf .values) := by
  refine ⟨?_, fun h => nomatch h⟩
  have repacks := own.repacks
  unfold Repacks at repacks
  show _ = c.storedSize .values
  unfold storedSize
  cases type : c.type with
  | boolean =>
    simp only [type] at repacks
    exact repacks.1
  | fixed p => exact own.size_fixed wf type
  | binary | utf8 =>
    obtain ⟨-, inside⟩ := Column.rebasedOffsets_eq wf.word (wf.rising_values (by simp [type]))
    simp only [type] at repacks
    rw [repacks.2, Array.size_extract, Nat.min_eq_left inside, Nat.add_sub_cancel_left]
  | list _ | struct _ => simp [type, DataType.roles] at mem

theorem stores (own : Own c d) (wf : c.WellFormed) {role : Role} (mem : role ∈ c.type.roles) :
    Stores (c, role) (d.bytesOf role) := by
  cases role with
  | validity => exact own.stores_validity
  | offsets => exact own.stores_offsets wf mem
  | values => exact own.stores_values wf mem

/-- The column itself and what is stored of it, whatever comes below. -/
theorem lists (own : Own c d) (wf : c.WellFormed) {below : List Column} (rest : Lists below (spreadAll d.children)) :
    Lists (c :: below) d.spread := by
  have node : d.node = c.node := by rw [Column.node, Column.node, own.length, own.nullCount]
  have here : Lists [c] ⟨[d.node], c.type.roles.map d.bytesOf⟩ := by
    refine ⟨by rw [node]; rfl, ?_⟩
    rw [slots, List.flatMap_singleton]
    exact List.forall₂_map_left_iff.2 <| List.forall₂_map_right_iff.2 <| List.forall₂_same.2 fun _ mem =>
      own.stores wf mem
  rw [own.spread_eq]
  exact here.append rest

end Own

theorem lists_of_packsAll {members : List Field} {start count : Nat} {children packed : List Column}
    (types : children.map (·.type) = members.map (·.type)) (sound : ∀ child ∈ children, child.Sound)
    (all : PacksAll members start count children packed)
    (each : ∀ f ∈ members, ∀ part d, part.Sound → part.type = f.type → Packs f.type part d →
      Lists (covered f.type part) d.spread) :
    Lists (coveredAll members children start count) (spreadAll packed) := by
  induction members generalizing children packed with
  | nil =>
    rw [List.map_nil, List.map_eq_nil_iff] at types
    subst types
    cases packed with
    | nil => exact .nil
    | cons _ _ => simp [PacksAll] at all
  | cons f members ih =>
    obtain ⟨child, children, rfl, type, tail⟩ := List.map_eq_cons_iff.1 types
    obtain ⟨own, others⟩ := List.forall_mem_cons.1 sound
    cases packed with
    | nil => simp [PacksAll] at all
    | cons d packed =>
      obtain ⟨⟨part, sliced, packs⟩, all⟩ := all
      obtain ⟨rfl, -, -⟩ := slice_ok sliced
      have first := each f (List.mem_cons_self ..) _ d (own.slice sliced) type packs
      exact first.append (ih tail others all fun g hg => each g (List.mem_cons_of_mem _ hg))

/-- What the encoder lists of a column are the nodes of the columns it covers, and what is stored of them. -/
theorem Packs.lists (t : DataType) : ∀ c d : Column, c.Sound → c.type = t → Packs t c d →
    Lists (covered t c) d.spread := by
  induction t using DataType.induct with
  | flat t isFlat =>
    intro c d sound type packs
    have childless : d.children = [] := by
      cases t <;> first | exact packs.2.2 | cases isFlat
    have alone : covered t c = [c] := by
      cases t <;> first | rfl | cases isFlat
    rw [alone]
    exact packs.own.lists sound.here (by rw [childless]; exact .nil)
  | list item ih =>
    intro c d sound type packs
    have own := packs.own
    obtain ⟨child, children, childType, childSound, -⟩ := sound.children_of_list type
    obtain ⟨name, t, nullable⟩ := item
    obtain ⟨-, child', part, packed, children', packedChildren, sliced, below⟩ := packs
    obtain rfl : child' = child := by simpa [children] using children'.symm
    obtain ⟨rfl, -, -⟩ := slice_ok sliced
    have kept := ih _ packed (childSound.slice sliced) childType below
    have head : covered (.list ⟨name, t, nullable⟩) c = c :: covered t (child'.part c.first c.span) := by
      rw [covered, children]
      rfl
    rw [head]
    refine own.lists sound.here ?_
    rw [packedChildren, spreadAll, spreadAll, Flattened.append_empty]
    exact kept
  | struct members ih =>
    intro c d sound type packs
    have types := sound.here.children
    simp only [type, DataType.children] at types
    exact packs.own.lists sound.here (lists_of_packsAll types (fun child hc => sound.child hc) packs.2 ih)

/-! ### No elements -/

theorem storedSize_of_empty {c : Column} (empty : c.node = ⟨0, 0⟩) (role : Role) : c.storedSize role = 0 := by
  obtain ⟨length, nulls⟩ := Node.mk.inj empty
  cases role with
  | validity => exact if_pos nulls
  | offsets => exact if_pos length
  | values =>
    rw [storedSize, span, length]
    cases c.type <;> simp [bytesFor]

theorem node_part_zero (c : Column) (start : Nat) : (c.part start 0).node = ⟨0, 0⟩ := rfl

theorem coveredAll_empty {members : List Field}
    (each : ∀ f ∈ members, ∀ c : Column, c.node = ⟨0, 0⟩ → ∀ d ∈ covered f.type c, d.node = ⟨0, 0⟩)
    (children : List Column) (start : Nat) : ∀ d ∈ coveredAll members children start 0, d.node = ⟨0, 0⟩ := by
  induction members generalizing children with
  | nil => simp [coveredAll]
  | cons f members ih =>
    obtain ⟨own, others⟩ := List.forall_mem_cons.1 each
    cases children with
    | nil => simp [coveredAll]
    | cons child children =>
      exact List.forall_mem_append.2 ⟨own _ (node_part_zero child start), ih others children⟩

/-- A column without elements covers none of its children's, wherever it was cut. -/
theorem covered_empty (t : DataType) : ∀ c : Column, c.node = ⟨0, 0⟩ → ∀ d ∈ covered t c, d.node = ⟨0, 0⟩ := by
  induction t using DataType.induct with
  | flat t isFlat =>
    intro c empty
    have alone : covered t c = [c] := by
      cases t <;> first | rfl | cases isFlat
    simpa [alone] using empty
  | list item ih =>
    intro c empty
    have none : c.span = 0 := if_pos (Node.mk.inj empty).1
    obtain ⟨name, t, nullable⟩ := item
    refine List.forall_mem_cons.2 ⟨empty, ?_⟩
    split
    · rename_i child _
      rw [none]
      exact ih _ (node_part_zero child _)
    · simp
  | struct members ih =>
    intro c empty
    refine List.forall_mem_cons.2 ⟨empty, ?_⟩
    rw [(Node.mk.inj empty).1]
    exact coveredAll_empty ih c.children c.offset

end Column

/-! ## Messages -/

namespace Batch

/-- All columns of a batch, and below each what its elements cover, in the order of the walk. -/
def covered (b : Batch) : List Column := b.columns.flatMap fun c => Column.covered c.type c

/-- The region is as long as what is stored for that role of the column, and offsets begin with a zero. -/
structure Holds (body : Buffer) (slot : Column × Role) (r : Region) : Prop where
  length : r.length = slot.1.storedSize slot.2
  start : slot.2 = .offsets → slot.1.length ≠ 0 → Column.offsetEntry (r.bytesIn body) 0 = .ok 0

/-- The layout of a batch: a node for each column it covers and a region for each of their buffers; the regions tile
the body, so that all of them start at the alignment and none overlap, and what lies between them is zero. -/
structure LaidOut (b : Batch) (header : BatchHeader) (body : Buffer) : Prop where
  rows : header.numRows = b.numRows
  nodes : header.nodes = b.covered.map fun c => ⟨c.length, c.nullCount⟩
  regions : List.Forall₂ (Holds body) (Column.slots b.covered) header.regions
  tiles : Tiles 0 header.regions body.size
  aligned : (∀ r ∈ header.regions, alignment ∣ r.offset) ∧ alignment ∣ body.size
  apart : header.regions.Pairwise fun r s => r.offset + r.length ≤ s.offset
  between : ∀ i < body.size, (∀ r ∈ header.regions, i < r.offset ∨ r.offset + r.length ≤ i) → body[i]? = some 0

theorem lists_of_packs {columns packed : List Column}
    (all : List.Forall₂ (fun c d => Column.Packs c.type c d) columns packed) (sound : ∀ c ∈ columns, c.Sound) :
    Column.Lists (columns.flatMap fun c => Column.covered c.type c) (Column.spreadAll packed) := by
  induction all with
  | nil => exact .nil
  | @cons c d columns packed packs _ ih =>
    obtain ⟨own, others⟩ := List.forall_mem_cons.1 sound
    exact (Column.Packs.lists c.type c d own rfl packs).append (ih others)

theorem holds_of_located {body : Buffer} {regions : List Region} {buffers : List Buffer}
    (located : Located body regions buffers) {slots : List (Column × Role)}
    (stores : List.Forall₂ Column.Stores slots buffers) : List.Forall₂ (Holds body) slots regions := by
  induction located generalizing slots with
  | nil =>
    cases stores
    exact .nil
  | cons covers _ ih =>
    obtain ⟨slot, slots, own, others, rfl⟩ := List.forall₂_cons_right_iff.1 stores
    refine .cons ⟨covers.length.trans own.size, fun role some => ?_⟩ (ih others)
    rw [Region.bytesIn, covers.bytes]
    exact own.start role some

theorem Packed.laidOut {b d : Batch} (packed : b.Packed d) (h : b.Sound) (word : d.spreadBody.size < wordSize) :
    LaidOut b d.spreadHeader d.spreadBody := by
  have lists := lists_of_packs packed.columns h.sound
  have tiles := tiles_regionsFrom 0 (Column.spreadAll d.columns).buffers
  rw [Nat.zero_add] at tiles
  refine ⟨packed.rows, lists.nodes, holds_of_located (located_bodyOf word) lists.buffers, tiles,
    tiles.aligned (Nat.dvd_zero _), tiles.apart, fun i hi outside => ?_⟩
  have zero := getElem?_between #[] (Column.spreadAll d.columns).buffers (Nat.zero_le i)
    (by rw [Array.empty_append]; exact hi) outside
  rwa [Array.empty_append] at zero

/-- Without rows there is nothing to store. -/
theorem LaidOut.of_no_rows {b : Batch} {header : BatchHeader} {body : Buffer} (laid : LaidOut b header body)
    (h : b.Sound) (none : b.numRows = 0) :
    (∀ n ∈ header.nodes, n = ⟨0, 0⟩) ∧ (∀ r ∈ header.regions, r = ⟨0, 0⟩) ∧ body = #[] := by
  have columns : ∀ c ∈ b.columns, c.length = 0 := by
    intro c mem
    obtain ⟨f, -, obeys⟩ := exists_left_of_mem h.obeys c mem
    rw [obeys.length, none]
  have empty : ∀ d ∈ b.covered, d.node = ⟨0, 0⟩ := by
    intro d mem
    obtain ⟨c, hc, below⟩ := List.mem_flatMap.1 mem
    have nulls := (h.sound c hc).here.nulls
    have length := columns c hc
    refine Column.covered_empty c.type c ?_ d below
    rw [Column.node, length, show c.nullCount = 0 by omega]
  have lengths : ∀ r ∈ header.regions, r.length = 0 := by
    intro r mem
    obtain ⟨slot, hslot, holds⟩ := exists_left_of_mem laid.regions r mem
    obtain ⟨d, hd, role⟩ := List.mem_flatMap.1 hslot
    obtain ⟨role, -, rfl⟩ := List.mem_map.1 role
    rw [holds.length, Column.storedSize_of_empty (empty d hd)]
  obtain ⟨stop, regions⟩ := laid.tiles.of_empty lengths
  refine ⟨fun n mem => ?_, regions, Array.eq_empty_of_size_eq_zero stop⟩
  rw [laid.nodes] at mem
  obtain ⟨d, hd, rfl⟩ := List.mem_map.1 mem
  exact empty d hd

/-- Whatever is encoded is laid out like this: the metadata holds the tables, and the length of the body. In a batch
without rows all nodes and regions are zero and the body is empty. No batch that a memory holds is refused, unless the
length of its body is not a machine word. -/
theorem encode_laidOut {b : Batch} (h : b.Obtained) :
    (∀ metadata body, b.encode = .ok (metadata, body) → ∃ header,
      Metadata.decode metadata = .ok ⟨.batch header, body.size⟩ ∧ LaidOut b header body ∧
        (b.numRows = 0 →
          (∀ n ∈ header.nodes, n = ⟨0, 0⟩) ∧ (∀ r ∈ header.regions, r = ⟨0, 0⟩) ∧ body = #[])) ∧
    (b.InMemory → ∃ header body, b.layOut = .ok (header, body) ∧
      (body.size < wordSize → ∃ metadata, b.encode = .ok (metadata, body))) := by
  have sound := h.reachable.sound
  refine ⟨fun metadata body encoded => ?_, fun small => ?_⟩
  · obtain ⟨d, packed, rfl, written⟩ := sound.encode_ok encoded
    have laid := packed.laidOut sound (Metadata.encode_word written)
    have read := Metadata.decode_encode written []
    rw [List.append_nil] at read
    exact ⟨d.spreadHeader, read, laid, laid.of_no_rows sound⟩
  · obtain ⟨d, packed, laid, encoded⟩ := sound.encode_eq small
    refine ⟨_, _, laid, fun word => ?_⟩
    obtain ⟨metadata, -, encoded⟩ := encoded word
    exact ⟨metadata, encoded⟩

/-- A batch without rows, cut out behind its last list. -/
def noList : Batch := ⟨secondList.schema, 0, [lists.part 2 0]⟩

theorem encode_laidOut_lists :
    (∃ header, LaidOut secondList header #[0, 0, 0, 0, 2, 0, 0, 0, 2, 3, 0, 0, 0, 0, 0, 0]) ∧
      ∃ header, LaidOut noList header #[] ∧ ∀ r ∈ header.regions, r = ⟨0, 0⟩ := by
  have cut : secondList.slice 1 0 = .ok noList := rfl
  obtain ⟨metadata, ran⟩ : ∃ metadata, secondList.encode =
      .ok (metadata, #[0, 0, 0, 0, 2, 0, 0, 0, 2, 3, 0, 0, 0, 0, 0, 0]) := ⟨_, rfl⟩
  obtain ⟨metadata', ran'⟩ : ∃ metadata, noList.encode = .ok (metadata, #[]) := ⟨_, rfl⟩
  obtain ⟨header, -, laid, -⟩ := (encode_laidOut obtained_secondList).1 _ _ ran
  obtain ⟨header', -, laid', bare⟩ := (encode_laidOut (obtained_secondList.sliced cut)).1 _ _ ran'
  exact ⟨⟨header, laid⟩, header', laid', (bare rfl).2.1⟩

end Batch

end ColumnStream
