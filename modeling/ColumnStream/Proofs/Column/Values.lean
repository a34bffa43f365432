/-
Reading a column whole. The values that the accessors bring, element by element and on every level below, are the
cells of the column: what each element holds, or null. A slice has the cells of its range.
-/
import ColumnStream.Proofs.Column.Access

namespace ColumnStream

def Value.isNull : Value → Bool
  | .null => true
  | _ => false

namespace Column

/-- The logical content of a column: null for each null element, and otherwise what the element holds. A number stands
for the bytes it is read from: no others of its kind are read as the same one. -/
def cells (c : Column) : List Value := (List.range c.length).map (cell c.type c)

@[simp] theorem length_cells (c : Column) : c.cells.length = c.length := by simp [cells]

theorem cells_part {c : Column} {start count : Nat} (inside : start + count ≤ c.length) :
    (c.part start count).cells = (c.cells.drop start).take count := by
  apply List.ext_getElem
  · simp only [length_cells, part_length, List.length_take, List.length_drop]
    omega
  · intro i hi hi'
    simp [cells, cell_part]

theorem isNull_cell (t : DataType) (c : Column) (i : Nat) : (cell t c i).isNull = !c.present i := by
  unfold cell
  cases c.present i with
  | true => cases t <;> simp [content, Value.isNull]
  | false => rfl

/-- The declared null count is the number of nulls among the cells. -/
theorem Counted.nullCount_eq_cells {c : Column} (counted : c.Counted) : c.nullCount = c.cells.countP (·.isNull) := by
  rw [counted.nullCount_eq, cells, List.countP_map]
  exact List.countP_congr fun i _ => by rw [Function.comp, isNull_cell]

/-! ## What the accessors bring -/

theorem each_eq {α : Type} {count : Nat} {read : Nat → Result α} {f : Nat → α}
    (h : ∀ k < count, read k = .ok (f k)) : each count read = .ok ((List.range count).map f) :=
  mapM_eq_ok fun k hk => h k (List.mem_range.1 hk)

theorem cell_of_present {t : DataType} {c : Column} {i : Nat} (present : c.present i = true) :
    cell t c i = content t c i := by rw [cell, if_pos present]

theorem cell_of_null {t : DataType} {c : Column} {i : Nat} (null : c.present i = false) : cell t c i = .null := by
  rw [cell, null]
  rfl

theorem valueOf_flat {t : DataType} (isFlat : t.isNested = false) {c : Column} (wf : c.WellFormed) (type : c.type = t)
    {i : Nat} (hi : i < c.length) : valueOf t c i = .ok (cell t c i) := by
  cases present : c.present i with
  | true =>
    rw [cell_of_present present]
    cases t with
    | boolean =>
      rw [valueOf, boolAt_eq wf type hi present, content]
      rfl
    | fixed p =>
      rw [valueOf, numberAt, if_pos type, unlessNull_eq wf.counted wf.word hi, if_pos present,
        (fixedBytes_eq wf type hi).1, content]
      rfl
    | binary =>
      rw [valueOf, bytesAt_eq wf (.inl type) hi present, content]
      rfl
    | utf8 =>
      rw [valueOf, bytesAt_eq wf (.inr type) hi present, content]
      rfl
    | list _ => cases isFlat
    | struct _ => cases isFlat
  | false =>
    have none {α : Type} (read : Result α) : c.unlessNull i read = .ok none := unlessNull_of_null wf hi present read
    rw [cell_of_null present]
    cases t with
    | boolean =>
      rw [valueOf, boolAt, if_pos type, none]
      rfl
    | fixed p =>
      rw [valueOf, numberAt, if_pos type, none]
      rfl
    | binary =>
      rw [valueOf, bytesAt_of_null wf (.inl type) hi present]
      rfl
    | utf8 =>
      rw [valueOf, bytesAt_of_null wf (.inr type) hi present]
      rfl
    | list _ => cases isFlat
    | struct _ => cases isFlat

/-- The values at one position of the children, if a slice of each child can be read. -/
theorem memberValues_eq {members : List Field} {children : List Column} {position : Nat}
    (types : children.map (·.type) = members.map (·.type))
    (each : ∀ f ∈ members, ∀ child ∈ children, child.type = f.type →
      ∃ element, child.slice position 1 = .ok element ∧ valueOf f.type element 0 = .ok (cell f.type child position)) :
    memberValues members children position = .ok (contents members children position) := by
  induction members generalizing children with
  | nil =>
    rw [List.map_nil, List.map_eq_nil_iff] at types
    subst types
    rfl
  | cons f members ih =>
    obtain ⟨child, children, rfl, type, types⟩ := List.map_eq_cons_iff.1 types
    obtain ⟨element, sliced, read⟩ := each f (List.mem_cons_self ..) child (List.mem_cons_self ..) type
    have rest := ih types fun g hg c hc => each g (List.mem_cons_of_mem _ hg) c (List.mem_cons_of_mem _ hc)
    rw [contents_cons]
    obtain ⟨name, t, nullable⟩ := f
    rw [memberValues, sliced, ok_bind, read, ok_bind, rest, ok_bind]
    rfl

/-- The value of an element is its cell. -/
theorem valueOf_eq (t : DataType) : ∀ c : Column, c.Sound → c.Addressable → c.type = t → ∀ i < c.length,
    valueOf t c i = .ok (cell t c i) := by
  -- By induction on the type: the items of a list and the members of a struct are read from slices of the children,
  -- which are sound columns of the types below.
  induction t using DataType.induct with
  | flat t isFlat => exact fun c sound _ type i hi => valueOf_flat isFlat sound.here type hi
  | list item ih =>
    intro c sound addressable type i hi
    obtain ⟨child, children, childType, childSound, rising⟩ := sound.children_of_list type
    have rising := rising (by omega)
    have head : c.children.head? = some child := by rw [children]; rfl
    have le := rising.mono i hi
    have inside := rising.bound_le (k := i + 1) hi
    have small : child.Addressable := addressable.child (by simp [children])
    cases present : c.present i with
    | true =>
      obtain ⟨count, span⟩ : ∃ count, count = c.bound (i + 1) - c.bound i := ⟨_, rfl⟩
      obtain ⟨sliced, partSound⟩ := childSound.slice_part small (show c.bound i + count ≤ child.length by omega)
      have items : each count (valueOf item.type (child.part (c.bound i) count)) =
          .ok ((List.range count).map fun k => cell item.type child (c.bound i + k)) :=
        each_eq fun k hk => by rw [ih _ partSound (small.part _ _) childType k hk, cell_part]
      rw [cell_of_present present, content_list head, ← span]
      obtain ⟨name, t, nullable⟩ := item
      rw [valueOf, rangeAt_eq sound.here type rising hi present, ok_bind, head]
      simp only
      rw [← span, sliced, ok_bind, part_length, items]
      rfl
    | false =>
      rw [cell_of_null present]
      obtain ⟨name, t, nullable⟩ := item
      rw [valueOf, rangeAt, type]
      simp only
      rw [unlessNull_of_null sound.here hi present]
      rfl
  | struct members ih =>
    intro c sound addressable type i hi
    have types := sound.here.children
    have word := sound.here.word
    have filled := sound.here.filled
    simp only [type, DataType.children] at types
    simp only [Filled, type] at filled
    unfold stop at word filled
    rw [valueOf, isValid_eq sound.here.counted sound.here.word hi, ok_bind]
    cases present : c.present i with
    | true =>
      have below : memberValues members c.children (c.offset + i) = .ok (contents members c.children (c.offset + i)) :=
        memberValues_eq types fun f hf child hc childType => by
          have long := filled child hc
          have small := addressable.child hc
          obtain ⟨sliced, partSound⟩ :=
            (sound.child hc).slice_part small (show c.offset + i + 1 ≤ child.length by omega)
          refine ⟨_, sliced, ?_⟩
          rw [ih f hf _ partSound (small.part _ _) childType 0 Nat.one_pos, cell_part, Nat.add_zero]
      rw [if_pos rfl, Word.add_eq_ok (by omega), ok_bind, below, cell_of_present present, content_struct]
      rfl
    | false =>
      rw [cell_of_null present]
      rfl

/-- Every value of a sound column can be read, and is what the element holds. -/
theorem Sound.values_eq {c : Column} (sound : c.Sound) (addressable : c.Addressable) : c.values = .ok c.cells :=
  each_eq fun i hi => valueOf_eq c.type c sound addressable rfl i hi

end Column

end ColumnStream
