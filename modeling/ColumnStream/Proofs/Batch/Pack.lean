/-
What a batch's body is made of. The encoder stores of each column a packed one: the same elements
from offset zero on, and nothing else. `Packs` relates a column to the packed one, at every level
below it; `flattenAs_eq` says that the encoder lists the nodes and buffers of just such a column, and
the rest of the file that this column is sound and has the same values.
-/
import ColumnStream.Batch.Encode
import ColumnStream.Proofs.Column.Content

namespace ColumnStream

/-! ## Lists of nodes and buffers -/

namespace Flattened

@[simp] theorem nodes_append (a b : Flattened) : (a ++ b).nodes = a.nodes ++ b.nodes := rfl

@[simp] theorem buffers_append (a b : Flattened) : (a ++ b).buffers = a.buffers ++ b.buffers := rfl

@[simp] theorem append_empty (a : Flattened) : a ++ empty = a := by
  show Flattened.mk _ _ = a
  simp [empty]

end Flattened

namespace Column

mutual
/-- The nodes and buffers of a column and of everything below it, as they are. -/
def spread : Column → Flattened
  | ⟨_, length, nullCount, _, buffers, children⟩ => ⟨[⟨length, nullCount⟩], buffers⟩ ++ spreadAll children

def spreadAll : List Column → Flattened
  | [] => .empty
  | c :: columns => spread c ++ spreadAll columns
end

theorem spread_eq (c : Column) : c.spread = ⟨[c.node], c.buffers⟩ ++ spreadAll c.children := by
  obtain ⟨_, _, _, _, _, _⟩ := c
  simp [spread, node]

/-! ## Offsets counted from the first -/

/-- Where the column's part of the child or of the values starts. -/
def first (c : Column) : Nat := if c.length = 0 then 0 else c.bound 0

/-- The length of the column's part of the child or of the values. -/
def span (c : Column) : Nat := if c.length = 0 then 0 else c.bound c.length - c.bound 0

def ownOffsets (c : Column) : List Nat :=
  if c.length = 0 then [] else (List.range (c.length + 1)).map fun k => c.bound k - c.bound 0

theorem rebasedOffsets_eq {c : Column} {limit : Nat} (word : c.stop < wordSize)
    (rising : c.length ≠ 0 → c.Rising limit) :
    c.rebasedOffsets = .ok (offsetBuffer c.ownOffsets, c.first, c.span) ∧ c.first + c.span ≤ limit := by
  unfold stop at word
  unfold rebasedOffsets ownOffsets first span
  by_cases none : c.length = 0
  · simp only [if_pos none, Nat.zero_add]
    exact ⟨rfl, Nat.zero_le _⟩
  have rising := rising none
  have readable {k : Nat} (hk : k ≤ c.length) :
      offsetEntry (c.bytesOf .offsets) (c.offset + k) = .ok (c.bound k) := rising.readable k hk
  have le {k : Nat} (hk : k ≤ c.length) := rising.le_of_le (Nat.zero_le k) hk
  obtain ⟨own, own_eq⟩ : ∃ own, own = (List.range (c.length + 1)).map fun k => c.bound k - c.bound 0 := ⟨_, rfl⟩
  -- Distances from the first offset are below the last one, so they fit into an entry again.
  have stored : storeOffsets (c.bytesOf .offsets) (c.bound 0) #[] c.offset own.length =
      .ok (#[] ++ offsetBuffer own) := by
    refine storeOffsets_eq own (fun k hk => ?_) (fun n hn => ?_)
    · simp only [own_eq, List.length_map, List.length_range] at hk ⊢
      have hk : k ≤ c.length := by omega
      rw [readable hk, List.getElem_map, List.getElem_range, Nat.add_sub_cancel' (le hk)]
    · rw [own_eq] at hn
      obtain ⟨k, hk, rfl⟩ := List.mem_map.1 hn
      have := rising.bound_lt (k := k) (by simpa using hk)
      omega
  rw [own_eq, List.length_map, List.length_range, Array.empty_append] at stored
  have last := le (le_refl c.length)
  have inside := rising.last
  simp only [if_neg none]
  rw [show offsetEntry (c.bytesOf .offsets) c.offset = _ from readable (Nat.zero_le _), ok_bind,
    Word.add_eq_ok (by omega), ok_bind, readable (le_refl _), ok_bind, stored, ok_bind, Word.sub_eq_ok last, ok_bind]
  exact ⟨rfl, by omega⟩

/-! ## Packed columns -/

/-- What the values and offsets of a packed column are. -/
def Repacks (c d : Column) : Prop :=
  match c.type with
  | .boolean => (d.bytesOf .values).size = bytesFor c.length ∧ ∀ i < c.length,
      Bitmap.isSet (d.bytesOf .values) i = Bitmap.isSet (c.bytesOf .values) (c.offset + i)
  | .fixed p => d.bytesOf .values =
      (c.bytesOf .values).extract (c.offset * p.width) ((c.offset + c.length) * p.width)
  | .binary | .utf8 => d.bytesOf .offsets = offsetBuffer c.ownOffsets ∧
      d.bytesOf .values = (c.bytesOf .values).extract c.first (c.first + c.span)
  | .list _ => d.bytesOf .offsets = offsetBuffer c.ownOffsets
  | .struct _ => True

/-- `d` has the nulls, offsets and values of `c`, whatever the children. -/
structure Own (c d : Column) : Prop where
  type : d.type = c.type
  length : d.length = c.length
  nullCount : d.nullCount = c.nullCount
  offset : d.offset = 0
  buffers : d.buffers.length = c.type.roles.length
  absent : c.nullCount = 0 → d.bytesOf .validity = #[]
  stored : 0 < c.nullCount → (d.bytesOf .validity).size = bytesFor c.length ∧
    ∀ i < c.length, Bitmap.isSet (d.bytesOf .validity) i = c.present i
  repacks : c.Repacks d

mutual
/-- `d` is the packed column of `c`, a column of that type. -/
def Packs : DataType → Column → Column → Prop
  | .list ⟨_, t, _⟩, c, d => Own c d ∧ ∃ child part packed, c.children = [child] ∧ d.children = [packed] ∧
      child.slice c.first c.span = .ok part ∧ Packs t part packed
  | .struct members, c, d => Own c d ∧ PacksAll members c.offset c.length c.children d.children
  | _, c, d => Own c d ∧ c.children = [] ∧ d.children = []

/-- Each of the second columns is the packed one of `count` elements from `start` on. -/
def PacksAll : List Field → (start count : Nat) → List Column → List Column → Prop
  | ⟨_, t, _⟩ :: members, start, count, child :: children, packed :: rest =>
    (∃ part, child.slice start count = .ok part ∧ Packs t part packed) ∧ PacksAll members start count children rest
  | [], _, _, [], [] => True
  | _, _, _, _, _ => False
end

theorem storedValidity_eq {c : Column} (wf : c.WellFormed) :
    ∃ v, c.storedValidity = .ok v ∧ (c.nullCount = 0 → v = #[]) ∧
      (0 < c.nullCount → v.size = bytesFor c.length ∧ ∀ i < c.length, Bitmap.isSet v i = c.present i) := by
  have counted := wf.counted
  unfold storedValidity present
  unfold Counted at counted
  cases found : c.validity? with
  | none =>
    simp only [found] at counted
    exact ⟨_, rfl, fun _ => rfl, fun some => by omega⟩
  | some validity =>
    simp only [found] at counted ⊢
    have size := counted.1
    rw [bytesFor_eq, stop] at size
    split
    · rename_i some
      obtain ⟨w, ran, size, bits⟩ := Bitmap.packed_eq_ok (show c.offset + c.length ≤ 8 * validity.size by omega)
      exact ⟨w, ran, fun none => by omega, fun _ => ⟨size, bits⟩⟩
    · rename_i none
      exact ⟨_, rfl, fun _ => rfl, fun some => by omega⟩

/-- One buffer for each role. -/
def ofRole (validity offsets values : Buffer) : Role → Buffer
  | .validity => validity
  | .offsets => offsets
  | .values => values

/-- The column with those buffers in the place of its own, from offset zero on. -/
def repack (c : Column) (buffers : Role → Buffer) (children : List Column) : Column :=
  ⟨c.type, c.length, c.nullCount, 0, c.type.roles.map buffers, children⟩

theorem spread_repack (c : Column) (buffers : Role → Buffer) (children : List Column) :
    (c.repack buffers children).spread = ⟨[c.node], c.type.roles.map buffers⟩ ++ spreadAll children := spread_eq _

theorem bytesOf_repack {c : Column} {buffers : Role → Buffer} {children : List Column} {role : Role}
    (h : role ∈ c.type.roles) : (c.repack buffers children).bytesOf role = buffers role := by
  have same := buffers_eq (c := c.repack buffers children) (List.length_map _)
  exact (List.map_inj_left.1 same role h).symm

theorem own_repack {c : Column} {validity offsets values : Buffer} {children : List Column}
    (absent : c.nullCount = 0 → validity = #[])
    (stored : 0 < c.nullCount → validity.size = bytesFor c.length ∧
      ∀ i < c.length, Bitmap.isSet validity i = c.present i)
    (repacks : c.Repacks (c.repack (ofRole validity offsets values) children)) :
    Own c (c.repack (ofRole validity offsets values) children) := by
  have same : (c.repack (ofRole validity offsets values) children).bytesOf .validity = validity :=
    bytesOf_repack (roles_validity _)
  exact ⟨rfl, rfl, rfl, rfl, List.length_map _, fun none => same.trans (absent none), by rwa [same], repacks⟩

theorem flattenMembers_eq {members : List Field} {children : List Column} {start count : Nat}
    (types : children.map (·.type) = members.map (·.type))
    (each : ∀ f ∈ members, ∀ child ∈ children, child.type = f.type → ∃ part packed,
      child.slice start count = .ok part ∧ flattenAs f.type part = .ok packed.spread ∧ Packs f.type part packed) :
    ∃ packed, flattenMembers members children start count = .ok (spreadAll packed) ∧
      PacksAll members start count children packed := by
  induction members generalizing children with
  | nil =>
    rw [List.map_nil, List.map_eq_nil_iff] at types
    subst types
    exact ⟨[], rfl, by simp [PacksAll]⟩
  | cons f members ih =>
    obtain ⟨child, children, rfl, type, types⟩ := List.map_eq_cons_iff.1 types
    obtain ⟨part, packed, sliced, flat, packs⟩ := each f (by simp) child (by simp) type
    obtain ⟨rest, ran, all⟩ := ih types fun g hg c hc => each g (by simp [hg]) c (by simp [hc])
    obtain ⟨name, t, nullable⟩ := f
    refine ⟨packed :: rest, ?_, ⟨part, sliced, packs⟩, all⟩
    rw [flattenMembers, sliced, ok_bind, flat, ok_bind, ran, ok_bind]
    rfl

theorem flattenAs_boolean {c : Column} (wf : c.WellFormed) (type : c.type = .boolean) (childless : c.children = []) :
    ∃ d, flattenAs .boolean c = .ok d.spread ∧ Packs .boolean c d := by
  obtain ⟨validity, validityOk, absent, stored⟩ := storedValidity_eq wf
  obtain ⟨values, ran, length, bits⟩ := Bitmap.packed_eq_ok (wf.room_bits type)
  have same : (c.repack (ofRole validity #[] values) []).bytesOf .values = values :=
    bytesOf_repack (by simp [type, DataType.roles])
  refine ⟨c.repack (ofRole validity #[] values) [], ?_, own_repack absent stored ?_, childless, rfl⟩
  · rw [flattenAs, ran, ok_bind, validityOk, ok_bind, spread_repack, type]
    rfl
  · simp only [Repacks, type, same]
    exact ⟨length, bits⟩

theorem flattenAs_fixed {c : Column} {p : Primitive} (wf : c.WellFormed) (type : c.type = .fixed p)
    (childless : c.children = []) : ∃ d, flattenAs (.fixed p) c = .ok d.spread ∧ Packs (.fixed p) c d := by
  have word := wf.word
  obtain ⟨validity, validityOk, absent, stored⟩ := storedValidity_eq wf
  obtain ⟨fits, size⟩ := wf.room_words type
  unfold stop at word
  have le : c.offset * p.width ≤ (c.offset + c.length) * p.width := Nat.mul_le_mul_right _ (by omega)
  obtain ⟨values, cut⟩ : ∃ values, values =
    (c.bytesOf .values).extract (c.offset * p.width) ((c.offset + c.length) * p.width) := ⟨_, rfl⟩
  refine ⟨c.repack (ofRole validity #[] values) [], ?_, own_repack absent stored ?_, childless, rfl⟩
  · rw [flattenAs, Word.mul_eq_ok (by omega), ok_bind, Word.add_eq_ok (by omega), ok_bind, Word.mul_eq_ok (by omega),
      ok_bind, validityOk, ok_bind, Buffer.range, if_pos le, Buffer.slice_eq_ok (by omega), Nat.add_sub_cancel' le,
      ok_bind, spread_repack, type, cut]
    rfl
  · simp only [Repacks, type, ← cut]
    exact bytesOf_repack (by simp [type, DataType.roles])

theorem flattenAs_variable {c : Column} {t : DataType} (wf : c.WellFormed) (type : c.type = t)
    (variable_ : t = .binary ∨ t = .utf8) (childless : c.children = []) :
    ∃ d, flattenAs t c = .ok d.spread ∧ Packs t c d := by
  have rising := wf.rising_values (type ▸ variable_)
  obtain ⟨validity, validityOk, absent, stored⟩ := storedValidity_eq wf
  obtain ⟨rebased, inside⟩ := rebasedOffsets_eq wf.word rising
  obtain ⟨values, cut⟩ : ∃ values, values = (c.bytesOf .values).extract c.first (c.first + c.span) := ⟨_, rfl⟩
  have own : Own c (c.repack (ofRole validity (offsetBuffer c.ownOffsets) values) []) := by
    refine own_repack absent stored ?_
    rcases variable_ with rfl | rfl <;> simp only [Repacks, type, ← cut] <;>
      exact ⟨bytesOf_repack (by simp [type, DataType.roles]), bytesOf_repack (by simp [type, DataType.roles])⟩
  refine ⟨c.repack (ofRole validity (offsetBuffer c.ownOffsets) values) [], ?_, ?_⟩
  · rcases variable_ with rfl | rfl <;> rw [flattenAs, rebased, ok_bind] <;> simp only <;>
      rw [validityOk, ok_bind, Buffer.slice_eq_ok inside, ok_bind, spread_repack, type, cut] <;> rfl
  · rcases variable_ with rfl | rfl <;> exact ⟨own, childless, rfl⟩

theorem flattenAs_list {c child part packed : Column} {item : Field} (wf : c.WellFormed) (type : c.type = .list item)
    (children : c.children = [child]) (rising : c.length ≠ 0 → c.Rising child.length)
    (sliced : child.slice c.first c.span = .ok part) (flat : flattenAs item.type part = .ok packed.spread)
    (packs : Packs item.type part packed) : ∃ d, flattenAs (.list item) c = .ok d.spread ∧ Packs (.list item) c d := by
  obtain ⟨validity, validityOk, absent, stored⟩ := storedValidity_eq wf
  obtain ⟨rebased, -⟩ := rebasedOffsets_eq wf.word rising
  obtain ⟨name, t, nullable⟩ := item
  have head : c.children.head? = some child := by rw [children]; rfl
  refine ⟨c.repack (ofRole validity (offsetBuffer c.ownOffsets) #[]) [packed], ?_, own_repack absent stored ?_,
    child, part, packed, children, rfl, sliced, packs⟩
  · rw [flattenAs, rebased, ok_bind]
    simp only
    rw [validityOk, ok_bind, head]
    simp only
    rw [sliced, ok_bind, flat, ok_bind, spread_repack, type]
    simp [spreadAll, ofRole, DataType.roles, pure, Except.pure]
  · simp only [Repacks, type]
    exact bytesOf_repack (by simp [type, DataType.roles])

theorem flattenAs_struct {c : Column} {packed : List Column} {members : List Field} (wf : c.WellFormed)
    (type : c.type = .struct members)
    (flat : flattenMembers members c.children c.offset c.length = .ok (spreadAll packed))
    (packs : PacksAll members c.offset c.length c.children packed) :
    ∃ d, flattenAs (.struct members) c = .ok d.spread ∧ Packs (.struct members) c d := by
  obtain ⟨validity, validityOk, absent, stored⟩ := storedValidity_eq wf
  refine ⟨c.repack (ofRole validity #[] #[]) packed, ?_, own_repack absent stored ?_, packs⟩
  · rw [flattenAs, validityOk, ok_bind, flat, ok_bind, spread_repack, type]
    rfl
  · simp only [Repacks, type]

theorem flattenAs_flat {t : DataType} (isFlat : t.isNested = false) {c : Column} (wf : c.WellFormed)
    (type : c.type = t) : ∃ d, flattenAs t c = .ok d.spread ∧ Packs t c d := by
  have childless : c.children = [] := by
    have types := wf.children
    rw [type, show t.children = [] by cases t <;> first | rfl | cases isFlat] at types
    exact List.map_eq_nil_iff.1 types
  cases t with
  | boolean => exact flattenAs_boolean wf type childless
  | fixed p => exact flattenAs_fixed wf type childless
  | binary => exact flattenAs_variable wf type (.inl rfl) childless
  | utf8 => exact flattenAs_variable wf type (.inr rfl) childless
  | list _ => cases isFlat
  | struct _ => cases isFlat

/-- The encoder lists the nodes and buffers of the packed column. -/
theorem flattenAs_eq (t : DataType) : ∀ c : Column, c.Sound → c.Addressable → c.type = t →
    ∃ d, flattenAs t c = .ok d.spread ∧ Packs t c d := by
  -- By induction on the type and not on the column: what is flattened below a list is a slice of its child,
  -- which is no part of the column.
  induction t using DataType.induct with
  | flat t isFlat => exact fun c sound _ type => flattenAs_flat isFlat sound.here type
  | list item ih =>
    intro c sound addressable type
    obtain ⟨child, children, childType, childSound, rising⟩ := sound.children_of_list type
    obtain ⟨-, inside⟩ := rebasedOffsets_eq sound.here.word rising
    have childAddressable : child.Addressable := addressable.child (by simp [children])
    obtain ⟨sliced, partSound⟩ := childSound.slice_part childAddressable inside
    obtain ⟨packed, flat, packs⟩ := ih _ partSound (childAddressable.part _ _) childType
    exact flattenAs_list sound.here type children rising sliced flat packs
  | struct members ih =>
    intro c sound addressable type
    have types := sound.here.children
    have filled := sound.here.filled
    simp only [type, DataType.children] at types
    simp only [Filled, type] at filled
    have each : ∀ f ∈ members, ∀ child ∈ c.children, child.type = f.type → ∃ part packed,
        child.slice c.offset c.length = .ok part ∧ flattenAs f.type part = .ok packed.spread ∧
          Packs f.type part packed := by
      intro f hf child hc childType
      have childAddressable := addressable.child hc
      obtain ⟨sliced, partSound⟩ := (sound.child hc).slice_part childAddressable (filled child hc)
      obtain ⟨packed, flat, packs⟩ := ih f hf _ partSound (childAddressable.part _ _) childType
      exact ⟨_, packed, sliced, flat, packs⟩
    obtain ⟨packed, flat, packs⟩ := flattenMembers_eq types each
    exact flattenAs_struct sound.here type flat packs

theorem flattenMembers_ok {members : List Field} {children : List Column} {start count : Nat} {flat : Flattened}
    (types : children.map (·.type) = members.map (·.type)) (sound : ∀ child ∈ children, child.Sound)
    (each : ∀ f ∈ members, ∀ part flat, part.Sound → part.type = f.type → flattenAs f.type part = .ok flat →
      ∃ packed, flat = packed.spread ∧ Packs f.type part packed)
    (ran : flattenMembers members children start count = .ok flat) :
    ∃ packed, flat = spreadAll packed ∧ PacksAll members start count children packed := by
  induction members generalizing children flat with
  | nil =>
    rw [List.map_nil, List.map_eq_nil_iff] at types
    subst types
    cases ran
    exact ⟨[], rfl, by simp [PacksAll]⟩
  | cons f members ih =>
    obtain ⟨child, children, rfl, type, tail⟩ := List.map_eq_cons_iff.1 types
    obtain ⟨own, others⟩ := List.forall_mem_cons.1 sound
    obtain ⟨name, t, nullable⟩ := f
    rw [flattenMembers] at ran
    obtain ⟨part, sliced, ran⟩ := bind_eq_ok.1 ran
    obtain ⟨first, flat, ran⟩ := bind_eq_ok.1 ran
    obtain ⟨below, rest, last⟩ := bind_eq_ok.1 ran
    cases last
    have partType : part.type = t := by rw [(slice_ok sliced).1]; exact type
    obtain ⟨d, rfl, packs⟩ := each _ (List.mem_cons_self ..) part first (own.slice sliced) partType flat
    obtain ⟨packed, rfl, all⟩ := ih tail others (fun g hg => each g (List.mem_cons_of_mem _ hg)) rest
    exact ⟨d :: packed, rfl, ⟨part, sliced, packs⟩, all⟩

/-- What the encoder listed are the nodes and buffers of the packed column, however large the bitmaps are. -/
theorem flattenAs_ok (t : DataType) : ∀ (c : Column) (flat : Flattened), c.Sound → c.type = t →
    flattenAs t c = .ok flat → ∃ d, flat = d.spread ∧ Packs t c d := by
  have found {t : DataType} {c : Column} {flat : Flattened} (ran : flattenAs t c = .ok flat)
      (h : ∃ d, flattenAs t c = .ok d.spread ∧ Packs t c d) : ∃ d, flat = d.spread ∧ Packs t c d := by
    obtain ⟨d, listed, packs⟩ := h
    exact ⟨d, Except.ok.inj (ran.symm.trans listed), packs⟩
  induction t using DataType.induct with
  | flat t isFlat => exact fun c flat sound type ran => found ran (flattenAs_flat isFlat sound.here type)
  | list item ih =>
    intro c flat sound type ran
    obtain ⟨child, children, childType, childSound, rising⟩ := sound.children_of_list type
    obtain ⟨rebased, -⟩ := rebasedOffsets_eq sound.here.word rising
    refine found ran ?_
    obtain ⟨name, t, nullable⟩ := item
    have head : c.children.head? = some child := by rw [children]; rfl
    rw [flattenAs, rebased, ok_bind] at ran
    obtain ⟨validity, -, ran⟩ := bind_eq_ok.1 ran
    rw [head] at ran
    obtain ⟨part, sliced, ran⟩ := bind_eq_ok.1 ran
    obtain ⟨below, flat', -⟩ := bind_eq_ok.1 ran
    have partType : part.type = t := by rw [(slice_ok sliced).1]; exact childType
    obtain ⟨packed, rfl, packs⟩ := ih part below (childSound.slice sliced) partType flat'
    exact flattenAs_list sound.here type children rising sliced flat' packs
  | struct members ih =>
    intro c flat sound type ran
    have types := sound.here.children
    simp only [type, DataType.children] at types
    refine found ran ?_
    rw [flattenAs] at ran
    obtain ⟨validity, -, ran⟩ := bind_eq_ok.1 ran
    obtain ⟨below, flat', -⟩ := bind_eq_ok.1 ran
    obtain ⟨packed, rfl, packs⟩ := flattenMembers_ok types (fun child hc => sound.child hc) ih flat'
    exact flattenAs_struct sound.here type flat' packs

end Column

end ColumnStream
