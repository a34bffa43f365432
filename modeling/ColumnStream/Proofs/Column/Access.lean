/-
Reading elements. On a sound column every accessor that matches the type ends, with a value just where the element
is valid: the bits, bytes and offsets that it needs are stored, text is UTF-8, the range of a list lies within the
list's child, and the children of a struct reach as far as the struct.
-/
import ColumnStream.Proofs.Column.Reachable

namespace ColumnStream.Column

/-! ## What is asked of a column -/

/-- The read ends, and finds a value just when element `i` is valid. -/
def FindsValid {α : Type} (c : Column) (i : Nat) (read : Result (Option α)) : Prop :=
  ∃ valid found, c.isValid i = .ok valid ∧ read = .ok found ∧ found.isSome = valid

/-- Whatever accessor matches the type can be used at element `i`. -/
structure Accessible (c : Column) (i : Nat) : Prop where
  number : ∀ kind, c.type = .fixed kind → c.FindsValid i (c.numberAt kind i)
  bool : c.type = .boolean → c.FindsValid i (c.boolAt i)
  bytes : c.type = .binary ∨ c.type = .utf8 → c.FindsValid i (c.bytesAt i)
  text : c.type = .utf8 → c.FindsValid i (c.textAt i)
  range : ∀ item, c.type = .list item → c.FindsValid i (c.rangeAt i)
  /-- Both offsets of the element are stored, so that neither is read as the zero that stands for a missing one. -/
  offsets : .offsets ∈ c.type.roles → ∀ position, position = c.offset + i ∨ position = c.offset + i + 1 →
    ∃ n, offsetEntry (c.bytesOf .offsets) position = .ok n ∧ c.offsetAt position = .ok n
  within : ∀ item, c.type = .list item → ∃ child, c.children = [child] ∧
    ∀ start stop, c.rangeAt i = .ok (some (start, stop)) → start ≤ stop ∧ stop ≤ child.length
  members : ∀ fields, c.type = .struct fields → ∀ child ∈ c.children, c.offset + i + 1 ≤ child.length ∧
    (child.Addressable → ∃ element, child.slice (c.offset + i) 1 = .ok element)

/-- The parts of the column pass the check again, its null count is the number of its nulls, and all its elements
can be accessed. -/
structure Invariant (c : Column) : Prop where
  rebuilt : assemble c.type c.length c.nullCount c.offset c.buffers c.children = .ok c
  nulls : c.nullCount = (List.range c.length).countP fun i => c.isNull i = .ok true
  accessible : ∀ i < c.length, c.Accessible i

/-! ## Elements that are null and others -/

section

variable {c : Column} {i : Nat}

theorem isNull_eq (wf : c.WellFormed) (hi : i < c.length) : c.isNull i = .ok !c.present i := by
  rw [isNull, isValid_eq wf.counted wf.word hi]
  rfl

theorem findsValid_of_cases {α : Type} {read : Result (Option α)} (wf : c.WellFormed) (hi : i < c.length)
    (valid : c.present i = true → ∃ a, read = .ok (some a)) (null : c.present i = false → read = .ok none) :
    c.FindsValid i read := by
  have checked := isValid_eq wf.counted wf.word hi
  cases present : c.present i with
  | true =>
    obtain ⟨a, found⟩ := valid present
    exact ⟨true, some a, present ▸ checked, found, rfl⟩
  | false => exact ⟨false, none, present ▸ checked, null present, rfl⟩

theorem unlessNull_of_null {α : Type} (wf : c.WellFormed) (hi : i < c.length) (null : c.present i = false)
    (read : Result α) : c.unlessNull i read = .ok none := by
  rw [unlessNull_eq wf.counted wf.word hi, null]
  rfl

/-! ## Accessors of each type -/

theorem finds_number (wf : c.WellFormed) {kind : Primitive} (type : c.type = .fixed kind) (hi : i < c.length) :
    c.FindsValid i (c.numberAt kind i) := by
  rw [numberAt, if_pos type]
  refine findsValid_of_cases wf hi (fun valid => ?_) fun null => unlessNull_of_null wf hi null _
  obtain ⟨stored, -⟩ := fixedBytes_eq wf type hi
  rw [unlessNull_eq wf.counted wf.word hi, valid, stored]
  exact ⟨_, rfl⟩

theorem finds_bool (wf : c.WellFormed) (type : c.type = .boolean) (hi : i < c.length) :
    c.FindsValid i (c.boolAt i) := by
  refine findsValid_of_cases wf hi (fun valid => ⟨_, boolAt_eq wf type hi valid⟩) fun null => ?_
  rw [boolAt, if_pos type]
  exact unlessNull_of_null wf hi null _

theorem bytesAt_of_null (wf : c.WellFormed) (type : c.type = .binary ∨ c.type = .utf8) (hi : i < c.length)
    (null : c.present i = false) : c.bytesAt i = .ok none := by
  rw [bytesAt, if_pos type]
  exact unlessNull_of_null wf hi null _

theorem finds_bytes (wf : c.WellFormed) (type : c.type = .binary ∨ c.type = .utf8) (hi : i < c.length) :
    c.FindsValid i (c.bytesAt i) :=
  findsValid_of_cases wf hi (fun valid => ⟨_, bytesAt_eq wf type hi valid⟩) (bytesAt_of_null wf type hi)

/-- The check made sure that the bytes of every text are UTF-8. -/
theorem finds_text (wf : c.WellFormed) (type : c.type = .utf8) (hi : i < c.length) :
    c.FindsValid i (c.textAt i) := by
  rw [textAt, if_pos type]
  refine findsValid_of_cases wf hi (fun valid => ?_) fun null => ?_
  · have filled := wf.filled
    simp only [Filled, type] at filled
    obtain ⟨text, spelled⟩ := Option.isSome_iff_exists.1 (filled.2 i hi valid)
    rw [bytesAt_eq wf (.inr type) hi valid]
    exact ⟨text, congrArg Except.ok spelled⟩
  · rw [bytesAt_of_null wf (.inr type) hi null]
    rfl

theorem finds_range {limit : Nat} (wf : c.WellFormed) {item : Field} (type : c.type = .list item)
    (rising : c.Rising limit) (hi : i < c.length) : c.FindsValid i (c.rangeAt i) := by
  refine findsValid_of_cases wf hi (fun valid => ⟨_, rangeAt_eq wf type rising hi valid⟩) fun null => ?_
  rw [rangeAt, type]
  exact unlessNull_of_null wf hi null _

theorem rangeAt_within {limit start stop : Nat} (wf : c.WellFormed) {item : Field} (type : c.type = .list item)
    (rising : c.Rising limit) (hi : i < c.length) (found : c.rangeAt i = .ok (some (start, stop))) :
    start ≤ stop ∧ stop ≤ limit := by
  cases present : c.present i with
  | true =>
    rw [rangeAt_eq wf type rising hi present] at found
    cases found
    exact ⟨rising.mono i hi, rising.bound_le hi⟩
  | false =>
    rw [rangeAt, type] at found
    cases (unlessNull_of_null wf hi present _).symm.trans found

theorem offset_stored {limit : Nat} (rising : c.Rising limit) (hi : i < c.length) {position : Nat}
    (either : position = c.offset + i ∨ position = c.offset + i + 1) :
    ∃ n, offsetEntry (c.bytesOf .offsets) position = .ok n ∧ c.offsetAt position = .ok n := by
  have readable : Readable (c.bytesOf .offsets) position := by
    rcases either with rfl | rfl
    · exact rising.readable i (by omega)
    · exact rising.readable (i + 1) hi
  refine ⟨_, readable, ?_⟩
  rw [offsetAt, show offsetEntry (c.bytesOf .offsets) position = _ from readable]

end

/-! ## Sound columns -/

theorem Sound.accessible {c : Column} (sound : c.Sound) {i : Nat} (hi : i < c.length) : c.Accessible i where
  number _ type := finds_number sound.here type hi
  bool type := finds_bool sound.here type hi
  bytes type := finds_bytes sound.here type hi
  text type := finds_text sound.here type hi
  range item type := by
    obtain ⟨child, -, -, -, rising⟩ := sound.children_of_list type
    exact finds_range sound.here type (rising (by omega)) hi
  offsets role position either := by
    exact offset_stored (sound.here.rising role (by omega)) hi either
  within item type := by
    obtain ⟨child, children, -, -, rising⟩ := sound.children_of_list type
    exact ⟨child, children, fun start stop found => rangeAt_within sound.here type (rising (by omega)) hi found⟩
  members fields type child mem := by
    have filled := sound.here.filled
    simp only [Filled, type, stop] at filled
    have long := filled child mem
    have inside : c.offset + i + 1 ≤ child.length := by omega
    refine ⟨inside, fun addressable => ?_⟩
    obtain ⟨made, -⟩ := (sound.child mem).slice_part addressable inside
    exact ⟨_, made⟩

theorem Sound.invariant {c : Column} (sound : c.Sound) : c.Invariant where
  rebuilt := by
    obtain ⟨type, length, nulls, offset, buffers, children⟩ := c
    exact assemble_eq_ok.2 ⟨rfl, sound.here⟩
  nulls := by
    rw [sound.here.counted.nullCount_eq]
    refine List.countP_congr fun i mem => ?_
    rw [isNull_eq sound.here (List.mem_range.1 mem)]
    simp
  accessible _ hi := sound.accessible hi

end ColumnStream.Column
