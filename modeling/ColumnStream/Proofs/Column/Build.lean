/-
Columns built element by element. After any appends a builder has stored what the list of the elements says: their
bytes one after another, a bit for each, and for variable lengths where each of them stops. Finishing it turns that
into a column, which has just these elements; it fails only for bytes that go further than an offset can say, and for
text that is none.
-/
import ColumnStream.Proofs.Column.Reachable
import ColumnStream.Proofs.Column.Values

namespace ColumnStream

/-! ## What is asked -/

/-- The column has these elements from its first position on, and a bitmap only if one of them is null. -/
structure Column.Built (c : Column) (type : DataType) (elements : List Value) : Prop where
  type : c.type = type
  length : c.length = elements.length
  offset : c.offset = 0
  values : c.values = .ok elements
  nulls : c.nullCount = elements.countP (·.isNull)
  bitmap : ∃ validity, c.buffer? .validity = some validity ∧ (validity = #[] ↔ ∀ v ∈ elements, v.isNull = false)

/-- What one append keeps, any number of them keeps. -/
theorem foldl_keeps {α β : Type} {add : β → α → β} (keeps : β → List α → Prop)
    (step : ∀ {b before} a, keeps b before → keeps (add b a) (before ++ [a])) {b : β} {before : List α}
    (h : keeps b before) (after : List α) : keeps (after.foldl add b) (before ++ after) := by
  induction after generalizing b before with
  | nil => rwa [List.append_nil]
  | cons a after ih =>
    have rest := ih (step a h)
    rwa [List.append_assoc] at rest

/-! ## The bitmap -/

theorem Column.buffer?_validity {c : Column} {validity : Buffer} {rest : List Buffer}
    (h : c.buffers = validity :: rest) : c.buffer? .validity = some validity := by
  have head : c.type.roles.findIdx? (· == .validity) = some 0 := by cases c.type <;> rfl
  simp [buffer?, head, h]

namespace Bitmap.Builder

/-- The flat column of that type with the bitmap built, and with these buffers besides. -/
def column (b : Builder) (type : DataType) (buffers : List Buffer) : Column :=
  ⟨type, b.length, b.validity.1, 0, b.validity.2 :: buffers, []⟩

namespace Holds

variable {b : Builder} {bits : List Bool}

theorem clear_eq_zero (h : b.Holds bits) : b.clear = 0 ↔ ∀ bit ∈ bits, bit = true := by
  rw [h.clear, List.count_eq_zero]
  constructor
  · intro none bit mem
    cases bit with
    | true => rfl
    | false => exact absurd mem none
  · intro all mem
    exact Bool.false_ne_true (all _ mem)

theorem validity_eq_empty (h : b.Holds bits) : b.validity.2 = #[] ↔ b.clear = 0 := by
  unfold validity
  split
  · rename_i none
    simp [none]
  · rename_i nulls
    refine ⟨fun empty => ?_, fun none => absurd none nulls⟩
    have size := h.size
    have le := List.count_le_length (a := false) (l := bits)
    rw [show b.bytes = #[] from empty, bytesFor_eq, Array.size_empty] at size
    rw [← h.clear] at le
    omega

theorem validity?_column (h : b.Holds bits) (type : DataType) (buffers : List Buffer) :
    (b.column type buffers).validity? = if b.clear = 0 then none else some b.bytes := by
  have stored := h.validity_eq_empty
  rw [Column.validity?,
    Column.buffer?_validity (show (b.column type buffers).buffers = b.validity.2 :: buffers from rfl)]
  by_cases none : b.clear = 0
  · simp [stored.2 none, none]
  · have bytes : b.validity.2 = b.bytes := by rw [validity, if_neg none]
    rw [bytes] at stored
    simp [bytes, none, stored]

theorem present_column (h : b.Holds bits) (type : DataType) (buffers : List Buffer) {i : Nat} (hi : i < bits.length) :
    (b.column type buffers).present i = bits[i] := by
  unfold Column.present
  rw [h.validity?_column]
  by_cases none : b.clear = 0
  · rw [if_pos none]
    exact (h.clear_eq_zero.1 none _ (List.getElem_mem hi)).symm
  · rw [if_neg none]
    show Bitmap.isSet b.bytes (0 + i) = bits[i]
    rw [Nat.zero_add, h.isSet, List.getElem?_eq_getElem hi]
    rfl

theorem clearIn_bytes (h : b.Holds bits) : clearIn b.bytes 0 bits.length = b.clear := by
  have spelled : bits = (List.range bits.length).map fun i => Bitmap.isSet b.bytes (0 + i) :=
    List.ext_getElem (by simp) fun i hi _ => by simp [h.isSet, hi]
  rw [clearIn, h.clear, List.count]
  conv_rhs => rw [spelled]
  rw [List.countP_map]
  exact List.countP_congr fun i _ => by simp

theorem counted_column (h : b.Holds bits) (small : bits.length + 8 < wordSize) (type : DataType)
    (buffers : List Buffer) : (b.column type buffers).Counted := by
  unfold Column.Counted
  rw [h.validity?_column]
  by_cases none : b.clear = 0
  · rw [if_pos none]
    show b.validity.1 = 0
    rw [validity, if_pos none]
  · rw [if_neg none]
    show bytesFor (0 + b.length) ≤ b.bytes.size ∧ countClear b.bytes 0 b.length = .ok b.validity.1
    have size := h.size
    rw [bytesFor_eq] at size
    rw [h.length, Nat.zero_add, bytesFor_eq, countClear_eq_ok (by omega) (by omega) (by omega), h.clearIn_bytes,
      validity, if_neg none]
    exact ⟨by omega, rfl⟩

theorem addressable_column (h : b.Holds bits) (small : bits.length + 16 < wordSize) (type : DataType)
    (buffers : List Buffer) : (b.column type buffers).Addressable := by
  refine .intro (fun validity found => ?_) fun child mem => absurd mem List.not_mem_nil
  rw [h.validity?_column] at found
  split at found
  · cases found
  · cases found
    rw [h.size, bytesFor_eq]
    omega

/-- With enough room in the other buffers, all that is left to check of the column is what it contains. -/
theorem check_column (h : b.Holds bits) (few : bits.length < 2 ^ 60) {type : DataType} {buffers : List Buffer}
    (flat : type.children = []) (count : buffers.length + 1 = type.roles.length)
    (room : ∀ role ∈ type.roles, role ≠ .validity → (b.column type buffers).Room role) :
    (b.column type buffers).check = (b.column type buffers).checkContents := by
  have word : bits.length + 8 < wordSize := by unfold wordSize; omega
  refine Column.check_eq_contents count (by rw [show (b.column type buffers).type = type from rfl, flat]; rfl) ?_ ?_
    room (h.counted_column word type buffers)
  · have le := List.count_le_length (a := false) (l := bits)
    rw [← h.clear] at le
    show b.validity.1 ≤ b.length
    rw [h.length]
    unfold validity
    split <;> simp only <;> omega
  · show 0 + b.length < wordSize
    rw [h.length]
    omega

/-- A column of the right bitmap and the right contents has just the elements appended. -/
theorem built {α : Type} {elements : List (Option α)} (h : b.Holds (elements.map (·.isSome)))
    (few : elements.length < 2 ^ 60) {make : α → Value} (some_ : ∀ a, (make a).isNull = false) {type : DataType}
    {buffers : List Buffer} (wf : (b.column type buffers).WellFormed)
    (contents : ∀ i a, elements[i]? = some (some a) → Column.content type (b.column type buffers) i = make a) :
    (b.column type buffers).Built type (elements.map (Column.orNull make)) := by
  have length : b.length = elements.length := by rw [h.length, List.length_map]
  have cells : (b.column type buffers).cells = elements.map (Column.orNull make) := by
    refine List.ext_getElem (by simp [column, length]) fun i hi _ => ?_
    have hi : i < elements.length := by simpa [column, length] using hi
    have present := h.present_column type buffers (i := i) (by simpa using hi)
    rw [List.getElem_map] at present
    simp only [Column.cells, List.getElem_map, List.getElem_range]
    show Column.cell type _ i = _
    cases element : elements[i] with
    | none => exact Column.cell_of_null (by rw [present, element]; rfl)
    | some a =>
      rw [Column.cell_of_present (by rw [present, element]; rfl)]
      exact contents i a (by rw [List.getElem?_eq_getElem hi, element])
  have sound : (b.column type buffers).Sound := .intro wf fun child mem => absurd mem List.not_mem_nil
  have small : (elements.map (·.isSome)).length + 16 < wordSize := by
    rw [List.length_map]
    unfold wordSize
    omega
  refine ⟨rfl, by simp [column, length], rfl, cells ▸ sound.values_eq (h.addressable_column small type buffers),
    cells ▸ wf.counted.nullCount_eq_cells, _, Column.buffer?_validity rfl, ?_⟩
  rw [h.validity_eq_empty, h.clear_eq_zero]
  simp only [List.forall_mem_map]
  refine forall₂_congr fun element _ => ?_
  cases element with
  | none => simp [Column.orNull, Value.isNull]
  | some a => simp [Column.orNull, some_]

end Holds

end Bitmap.Builder

/-! ## Fixed width -/

namespace FixedBuilder

variable {b : FixedBuilder} {kind : Primitive} {numbers : List (Option Int)}

/-- The builder has nothing yet, with or without memory set aside. -/
def Opens (b : FixedBuilder) (kind : Primitive) : Prop := b = { kind } ∨ ∃ count, withRoom kind count = .ok b

/-- The builder has stored these numbers. -/
structure Holds (b : FixedBuilder) (kind : Primitive) (numbers : List (Option Int)) : Prop where
  type : b.kind = kind
  values : b.values.toList = numbers.flatMap (stored kind)
  valid : b.valid.Holds (numbers.map (·.isSome))

theorem length_stored (kind : Primitive) (number : Option Int) : (stored kind number).length = kind.width := by
  cases number <;> simp [stored, Bytes.zeros]

theorem Opens.holds (h : b.Opens kind) : b.Holds kind [] := by
  have fresh : b = { kind } := by
    rcases h with fresh | ⟨count, ran⟩
    · exact fresh
    · obtain ⟨size, -, ran⟩ := bind_eq_ok.1 ran
      split at ran <;> cases ran
      rfl
  subst fresh
  exact ⟨rfl, rfl, Bitmap.Builder.holds_empty⟩

theorem Holds.append (number : Option Int) (h : b.Holds kind numbers) :
    (b.append number).Holds kind (numbers ++ [number]) := by
  refine ⟨h.type, ?_, ?_⟩
  · show (b.values ++ stored b.kind number).toList = _
    rw [h.type]
    simp [h.values]
  · rw [List.map_append]
    exact h.valid.append number.isSome

theorem Holds.finish (h : b.Holds kind numbers) (few : numbers.length < 2 ^ 60)
    (held : ∀ n, some n ∈ numbers → kind.Holds n) :
    ∃ c, b.finish = .ok c ∧ c.Built (.fixed kind) (numbers.map (Column.orNull .number)) := by
  have width : kind.width ≤ 8 := by cases kind <;> decide
  have size : b.values.size = numbers.length * kind.width := by
    rw [← Array.length_toList, h.values, List.length_flatMap]
    simp [length_stored]
  have length : b.valid.length = numbers.length := by rw [h.valid.length, List.length_map]
  have small : numbers.length * kind.width < wordSize := by
    have := Nat.mul_le_mul_left numbers.length width
    unfold wordSize
    omega
  have room : ∀ role ∈ DataType.roles (.fixed kind), role ≠ .validity →
      (b.valid.column (.fixed kind) [b.values]).Room role := by
    intro role mem other
    obtain rfl : role = .values := by simpa [DataType.roles, other] using mem
    refine ⟨numbers.length * kind.width, ?_, le_of_eq size.symm⟩
    rw [show (b.valid.column (.fixed kind) [b.values]).stop = 0 + b.valid.length from rfl, Nat.zero_add, length]
    exact fitting?_eq_some.2 ⟨small, rfl⟩
  have wf : (b.valid.column (.fixed kind) [b.values]).WellFormed :=
    Column.check_eq_ok.1 (h.valid.check_column (by simpa using few) rfl rfl room)
  refine ⟨b.valid.column (.fixed kind) [b.values], ?_, h.valid.built few (fun _ => rfl) wf fun i n found => ?_⟩
  · have made := Column.assemble_eq_ok.2 ⟨rfl, wf⟩
    rw [← h.type] at made ⊢
    exact made
  · obtain ⟨hi, element⟩ := List.getElem?_eq_some_iff.1 found
    have word : ((b.valid.column (.fixed kind) [b.values]).wordAt kind i).toList = kind.encode n := by
      show (b.values.extract ((0 + i) * kind.width) ((0 + i) * kind.width + kind.width)).toList = _
      rw [Nat.zero_add, Buffer.toList_extract_add, h.values, Nat.mul_comm,
        Column.take_drop_flatMap (length_stored kind) numbers hi, element, stored]
    rw [Column.content, word, kind.decode_encode (held n (element ▸ List.getElem_mem hi))]

end FixedBuilder

/-! ## Booleans -/

namespace BooleanBuilder

variable {b : BooleanBuilder} {bools : List (Option Bool)}

/-- The builder has stored these elements. -/
structure Holds (b : BooleanBuilder) (bools : List (Option Bool)) : Prop where
  values : b.values.Holds (bools.map (·.getD false))
  valid : b.valid.Holds (bools.map (·.isSome))

theorem holds_empty : ({} : BooleanBuilder).Holds [] := ⟨Bitmap.Builder.holds_empty, Bitmap.Builder.holds_empty⟩

theorem Holds.append (bool : Option Bool) (h : b.Holds bools) : (b.append bool).Holds (bools ++ [bool]) := by
  constructor
  · rw [List.map_append]
    exact h.values.append (bool.getD false)
  · rw [List.map_append]
    exact h.valid.append bool.isSome

theorem Holds.finish (h : b.Holds bools) (few : bools.length < 2 ^ 60) :
    ∃ c, b.finish = .ok c ∧ c.Built .boolean (bools.map (Column.orNull .bool)) := by
  have length : b.valid.length = bools.length := by rw [h.valid.length, List.length_map]
  have room : ∀ role ∈ DataType.roles .boolean, role ≠ .validity →
      (b.valid.column .boolean [b.values.bytes]).Room role := by
    intro role mem other
    obtain rfl : role = .values := by simpa [DataType.roles, other] using mem
    refine ⟨_, rfl, ?_⟩
    show bytesFor (0 + b.valid.length) ≤ b.values.bytes.size
    rw [h.values.size, Nat.zero_add, length, List.length_map]
  have wf : (b.valid.column .boolean [b.values.bytes]).WellFormed :=
    Column.check_eq_ok.1 (h.valid.check_column (by simpa using few) rfl rfl room)
  refine ⟨_, Column.assemble_eq_ok.2 ⟨rfl, wf⟩, h.valid.built few (fun _ => rfl) wf fun i bool found => ?_⟩
  show Value.bool (Bitmap.isSet b.values.bytes (0 + i)) = .bool bool
  rw [Nat.zero_add, h.values.isSet, List.getElem?_map, found]
  rfl

end BooleanBuilder

/-! ## Variable length -/

theorem Column.foldlM_appendOffset (entries : List Nat) (stored : Buffer) :
    entries.foldlM appendOffset stored =
      if ∀ n ∈ entries, n < offsetBound then .ok (stored ++ offsetBuffer entries) else fail .outOfBounds := by
  induction entries generalizing stored with
  | nil =>
    simp [offsetBuffer]
    rfl
  | cons n entries ih =>
    rw [List.foldlM_cons, appendOffset]
    by_cases small : n < offsetBound
    · rw [if_pos small, ok_bind, ih]
      simp only [List.forall_mem_cons, small, true_and]
      have joined :
          stored ++ Primitive.int32.encode n ++ offsetBuffer entries = stored ++ offsetBuffer (n :: entries) := by
        apply Array.toList_inj.1
        simp [offsetBuffer]
      rw [joined]
    · rw [if_neg small, if_neg (by simp [small])]
      rfl

/-- The first text that is none is what a column is refused for. -/
theorem Column.checkTexts_refused {c : Column} {cause : Error} {i count k : Nat} (hk : k < count)
    (before : ∀ j < k, c.checkText (i + j) = .ok ()) (here : c.checkText (i + k) = fail cause) :
    c.checkTexts i count = fail cause := by
  induction count generalizing i k with
  | zero => omega
  | succ count ih =>
    rw [checkTexts]
    cases k with
    | zero =>
      rw [show c.checkText i = fail cause from here]
      rfl
    | succ k =>
      have next (j : Nat) : i + 1 + j = i + (j + 1) := by omega
      rw [show c.checkText i = .ok () from before 0 (by omega), ok_bind]
      refine ih (k := k) (by omega) (fun j hj => ?_) ?_
      · rw [next]
        exact before (j + 1) (by omega)
      · rwa [next]

namespace VariableBuilder

variable {b : VariableBuilder} {isText : Bool} {values : List (Option Buffer)}

/-- How many bytes the values have together. -/
def total (values : List (Option Buffer)) : Nat := (values.map fun v => (v.getD #[]).size).sum

/-- Where each value stops, after a zero for the first start. -/
def stops (values : List (Option Buffer)) : List Nat :=
  (List.range (values.length + 1)).map fun k => total (values.take k)

/-- Value `i` is not null, and not UTF-8. -/
def Garbled (values : List (Option Buffer)) (i : Nat) : Prop :=
  ∃ value, values[i]? = some (some value) ∧ value.text? = none

/-- The builder has stored these values. -/
structure Holds (b : VariableBuilder) (isText : Bool) (values : List (Option Buffer)) : Prop where
  text : b.isText = isText
  bounds : b.bounds.toList = stops values
  bytes : b.values.toList = values.flatMap fun v => (v.getD #[]).toList
  valid : b.valid.Holds (values.map (·.isSome))

theorem total_append (before after : List (Option Buffer)) : total (before ++ after) = total before + total after := by
  simp [total]

theorem total_take_add_one {i : Nat} {value : Option Buffer} (found : values[i]? = some value) :
    total (values.take (i + 1)) = total (values.take i) + (value.getD #[]).size := by
  rw [List.take_add_one, total_append, found]
  simp [total]

theorem total_take_le (values : List (Option Buffer)) (k : Nat) : total (values.take k) ≤ total values := by
  conv_rhs => rw [← List.take_append_drop k values, total_append]
  exact Nat.le_add_right ..

theorem Holds.size (h : b.Holds isText values) : b.values.size = total values := by
  rw [← Array.length_toList, h.bytes, List.length_flatMap]
  simp [total]

theorem holds_empty (isText : Bool) : ({ isText } : VariableBuilder).Holds isText [] :=
  ⟨rfl, rfl, rfl, Bitmap.Builder.holds_empty⟩

theorem stops_append (values : List (Option Buffer)) (value : Option Buffer) :
    stops (values ++ [value]) = stops values ++ [total values + (value.getD #[]).size] := by
  have last : total ((values ++ [value]).take (values.length + 1)) = total values + (value.getD #[]).size := by
    rw [List.take_of_length_le (by simp), total_append]
    simp [total]
  unfold stops
  rw [List.length_append, List.length_singleton, List.range_succ, List.map_append, List.map_singleton, last]
  congr 1
  refine List.map_congr_left fun k hk => ?_
  rw [List.take_append_of_le_length (by simpa [Nat.lt_succ_iff] using hk)]

theorem Holds.append (value : Option Buffer) (h : b.Holds isText values) :
    (b.append value).Holds isText (values ++ [value]) := by
  refine ⟨h.text, ?_, ?_, ?_⟩
  · show (b.bounds.push (b.values ++ value.getD #[]).size).toList = _
    rw [Array.toList_push, h.bounds, stops_append, Array.size_append, h.size]
  · show (b.values ++ value.getD #[]).toList = _
    simp [h.bytes]
  · rw [List.map_append]
    exact h.valid.append value.isSome

/-! ### The finished column -/

def type (b : VariableBuilder) : DataType := if b.isText then .utf8 else .binary

/-- The offsets of a column with these values; no elements need none. -/
def offsets (values : List (Option Buffer)) : Buffer :=
  if values.length = 0 then #[] else Column.offsetBuffer (stops values)

/-- The column that is put together in the end. -/
def column (b : VariableBuilder) (values : List (Option Buffer)) : Column :=
  b.valid.column b.type [offsets values, b.values]

/-- Offset `k` is where the values before it stop. -/
theorem entry_offsets (few : values.length < 2 ^ 60) (small : total values < offsetBound) {k : Nat}
    (hk : k ≤ values.length) (some : values.length ≠ 0) :
    Column.Readable (offsets values) k ∧ Column.entry (offsets values) k = total (values.take k) := by
  have inside : k < (stops values).length := by simpa [stops, Nat.lt_succ_iff] using hk
  have stop : (stops values)[k] = total (values.take k) := by simp [stops]
  have word : offsetWidth * (stops values).length < wordSize := by
    simp only [stops, List.length_map, List.length_range, offsetWidth, wordSize]
    omega
  have read := Column.offsetEntry_offsetBuffer inside
    (by rw [stop]; exact (total_take_le values k).trans_lt small) word
  rw [offsets, if_neg some, ← stop]
  exact Column.readable_of_ok read

theorem type_cases (b : VariableBuilder) : b.type = .binary ∨ b.type = .utf8 := by
  unfold type
  cases b.isText <;> simp

theorem bytesOf_offsets (b : VariableBuilder) (values : List (Option Buffer)) :
    (b.column values).bytesOf .offsets = offsets values := by
  unfold column
  rcases b.type_cases with type | type <;> rw [type] <;> rfl

/-- Either bound of a value of the finished column can be read, and is where the values before it stop. -/
theorem bound_column (b : VariableBuilder) (few : values.length < 2 ^ 60) (small : total values < offsetBound) {k : Nat}
    (hk : k ≤ values.length) (some : values.length ≠ 0) :
    Column.Readable ((b.column values).bytesOf .offsets) ((b.column values).offset + k) ∧
      (b.column values).bound k = total (values.take k) := by
  rw [Column.bound, bytesOf_offsets, show (b.column values).offset = 0 from rfl, Nat.zero_add]
  exact entry_offsets few small hk some

theorem bytesOf_values (b : VariableBuilder) (values : List (Option Buffer)) :
    (b.column values).bytesOf .values = b.values := by
  unfold column
  rcases b.type_cases with type | type <;> rw [type] <;> rfl

namespace Holds

theorem length (h : b.Holds isText values) : (b.column values).length = values.length := by
  show b.valid.length = _
  rw [h.valid.length, List.length_map]

theorem stop (h : b.Holds isText values) : (b.column values).stop = values.length := by
  rw [Column.stop, h.length, show (b.column values).offset = 0 from rfl, Nat.zero_add]

theorem finish_eq (h : b.Holds isText values) :
    b.finish = if total values < offsetBound
      then Column.assemble b.type b.length b.valid.validity.1 0 [b.valid.validity.2, offsets values, b.values] []
      else fail .outOfBounds := by
  have length : b.length = values.length := h.length
  have least : (∀ n ∈ stops values, n < offsetBound) ↔ total values < offsetBound := by
    constructor
    · intro all
      refine all _ (List.mem_map.2 ⟨values.length, by simp, ?_⟩)
      rw [List.take_length]
    · intro small n mem
      obtain ⟨k, -, rfl⟩ := List.mem_map.1 mem
      exact (total_take_le values k).trans_lt small
  unfold finish
  by_cases none : values.length = 0
  · rw [if_pos (length.trans none)]
    obtain rfl := List.length_eq_zero_iff.1 none
    rfl
  · rw [if_neg (by rw [length]; exact none), h.bounds, Column.foldlM_appendOffset]
    simp only [least]
    split
    · rw [ok_bind, Array.empty_append, offsets, if_neg none]
      rfl
    · rfl

theorem room (h : b.Holds isText values) (few : values.length < 2 ^ 60) :
    ∀ role ∈ b.type.roles, role ≠ .validity → (b.column values).Room role := by
  intro role mem other
  have sizes : role = .offsets ∨ role = .values := by
    rcases b.type_cases with type | type <;> simpa [type, DataType.roles, other] using mem
  have type : (b.column values).type = b.type := rfl
  unfold Column.Room
  rw [h.stop]
  rcases sizes with rfl | rfl
  · rw [bytesOf_offsets, offsets, DataType.leastLength?]
    by_cases none : values.length = 0
    · exact ⟨0, by rw [if_pos none], Nat.zero_le _⟩
    · rw [if_neg none, if_neg none, Column.size_offsetBuffer]
      refine ⟨offsetWidth * (values.length + 1), fitting?_eq_some.2 ⟨?_, rfl⟩, by simp [stops]⟩
      unfold offsetWidth wordSize
      omega
  · refine ⟨0, ?_, Nat.zero_le _⟩
    rw [type]
    rcases b.type_cases with type | type <;> rw [type] <;> rfl

variable (h : b.Holds isText values) (few : values.length < 2 ^ 60) (small : total values < offsetBound)

include h few small

theorem rising (some : (b.column values).length ≠ 0) :
    (b.column values).Rising ((b.column values).bytesOf .values).size := by
  have length := h.length
  have own {k : Nat} (hk : k ≤ values.length) := b.bound_column few small hk (by omega)
  refine ⟨fun k hk => (own (by omega)).1, fun k hk => ?_, ?_⟩
  · have hk : k < values.length := by omega
    rw [(own hk.le).2, (own hk).2, total_take_add_one (List.getElem?_eq_getElem hk)]
    exact Nat.le_add_right ..
  · rw [length, (own (le_refl _)).2, List.take_length, bytesOf_values, h.size]

theorem piece_eq {i : Nat} {value : Buffer} (found : values[i]? = some (some value)) :
    (b.column values).piece i = value := by
  obtain ⟨hi, element⟩ := List.getElem?_eq_some_iff.1 found
  have at_ {k : Nat} (hk : k ≤ values.length) := (b.bound_column few small hk (by omega)).2
  apply Array.toList_inj.1
  rw [Column.piece, at_ hi.le, at_ hi, total_take_add_one found, bytesOf_values, Buffer.toList_extract_add, h.bytes]
  -- The bytes in front are those of the values in front.
  have front : ((values.take i).flatMap fun v => (v.getD #[]).toList).length = total (values.take i) := by
    rw [List.length_flatMap]
    simp [total]
  have joined : values.flatMap (fun v => (v.getD #[]).toList) =
      (values.take i).flatMap (fun v => (v.getD #[]).toList) ++
      (value.toList ++ (values.drop (i + 1)).flatMap fun v => (v.getD #[]).toList) := by
    conv_lhs => rw [← List.take_append_drop i values, List.drop_eq_getElem_cons hi, element]
    rw [List.flatMap_append, List.flatMap_cons]
    rfl
  rw [joined, ← front]
  simp

theorem check_eq :
    (b.column values).check = if isText then (b.column values).checkTexts 0 values.length else .ok () := by
  have flat : b.type.children = [] := by rcases b.type_cases with type | type <;> rw [type] <;> rfl
  have count : [offsets values, b.values].length + 1 = b.type.roles.length := by
    rcases b.type_cases with type | type <;> rw [type] <;> rfl
  have offsets : (b.column values).checkOffsets ((b.column values).bytesOf .values).size = .ok () :=
    Column.checkOffsets_eq_ok.2 (h.rising few small)
  have type : (b.column values).type = if isText then .utf8 else .binary := by rw [← h.text]; rfl
  refine (h.valid.check_column (by simpa using few) flat count (h.room few)).trans ?_
  show (b.column values).checkContents = _
  unfold Column.checkContents
  rw [type]
  cases isText with
  | true =>
    simp only [if_true]
    rw [offsets, ok_bind, h.length]
  | false => exact offsets

theorem checkText_eq {i : Nat} (hi : i < values.length) :
    (Garbled values i → (b.column values).checkText i = fail (.invalidColumn (.textNotUtf8 i))) ∧
      (¬ Garbled values i → (b.column values).checkText i = .ok ()) := by
  have here : i < (b.column values).length := by rwa [h.length]
  have word : (b.column values).stop < wordSize := by
    rw [h.stop]
    unfold wordSize
    omega
  have counted : (b.column values).Counted := h.valid.counted_column (by simp [wordSize]; omega) _ _
  have present := h.valid.present_column b.type [offsets values, b.values] (i := i) (by simpa using hi)
  rw [List.getElem_map] at present
  rw [Column.checkText, Column.unlessNull_eq counted word here,
    Column.variableBytes_eq word (h.rising few small (by omega)) here,
    show (b.column values).present i = _ from present]
  unfold Garbled
  rw [List.getElem?_eq_getElem hi]
  cases element : values[i] with
  | none => simp [ok_bind]
  | some value =>
    rw [h.piece_eq few small (by rw [List.getElem?_eq_getElem hi, element])]
    cases text : value.text? with
    | none => simp [Column.refuse, text, ok_bind]
    | some spelt => simp [text, ok_bind]

/-! ### What comes of it -/

theorem finish_built (legible : isText = true → ∀ i, ¬ Garbled values i) :
    ∃ c, b.finish = .ok c ∧ c.Built (if isText then .utf8 else .binary) (values.map (Column.orNull .bytes)) := by
  have wf : (b.column values).WellFormed := by
    refine Column.check_eq_ok.1 ((h.check_eq few small).trans ?_)
    split
    · rename_i text
      refine Column.checkTexts_eq_ok.2 fun i hi => ?_
      rw [Nat.zero_add]
      exact (h.checkText_eq few small hi).2 (legible text i)
    · rfl
  have type : b.type = if isText then .utf8 else .binary := by rw [← h.text]; rfl
  refine ⟨b.column values, ?_, type ▸ h.valid.built few (fun _ => rfl) wf fun i value found => ?_⟩
  · rw [h.finish_eq, if_pos small]
    exact Column.assemble_eq_ok.2 ⟨rfl, wf⟩
  · have piece := h.piece_eq few small found
    unfold column at piece
    rcases b.type_cases with type | type <;> rw [type] at piece ⊢ <;> rw [Column.content, piece]

theorem finish_refused (text : isText = true) {i : Nat} (bad : Garbled values i) (first : ∀ j < i, ¬ Garbled values j) :
    b.finish = fail (.invalidColumn (.textNotUtf8 i)) := by
  have hi : i < values.length := by
    obtain ⟨value, found, -⟩ := bad
    exact (List.getElem?_eq_some_iff.1 found).1
  have texts : (b.column values).checkTexts 0 values.length = fail (.invalidColumn (.textNotUtf8 i)) := by
    refine Column.checkTexts_refused hi (fun j hj => ?_) ?_
    · rw [Nat.zero_add]
      exact (h.checkText_eq few small (by omega)).2 (first j hj)
    · rw [Nat.zero_add]
      exact (h.checkText_eq few small hi).1 bad
  have check := h.check_eq few small
  rw [if_pos text, texts] at check
  rw [h.finish_eq, if_pos small]
  show ((b.column values).check >>= fun _ => _) = _
  rw [check]
  rfl

end Holds

end VariableBuilder

/-! ## Any appends -/

theorem FixedBuilder.holds_foldl {kind : Primitive} {start : FixedBuilder} (opens : start.Opens kind)
    (numbers : List (Option Int)) : (numbers.foldl append start).Holds kind numbers :=
  foldl_keeps (fun b numbers => Holds b kind numbers) Holds.append opens.holds numbers

theorem BooleanBuilder.holds_foldl (bools : List (Option Bool)) : (bools.foldl append {}).Holds bools :=
  foldl_keeps Holds Holds.append holds_empty bools

theorem VariableBuilder.holds_foldl (isText : Bool) (values : List (Option Buffer)) :
    (values.foldl append { isText }).Holds isText values :=
  foldl_keeps (fun b values => Holds b isText values) Holds.append (holds_empty isText) values

theorem Bitmap.Builder.Holds.counts {α : Type} {b : Builder} {elements : List (Option α)}
    (h : b.Holds (elements.map (·.isSome))) : b.length = elements.length ∧ b.clear = elements.countP (·.isNone) := by
  rw [h.length, h.clear, List.length_map, List.count, List.countP_map]
  exact ⟨rfl, List.countP_congr fun element _ => by cases element <;> simp⟩

/-- What finishing a builder of variable-length values comes to. That the offsets can say where each value stops is
looked at first, and then that each value of a text is text by itself. -/
structure VariableBuilder.Finishes (b : VariableBuilder) (isText : Bool) (values : List (Option Buffer)) : Prop where
  ok_iff : (∃ c, b.finish = .ok c) ↔ total values < offsetBound ∧ (isText = true → ∀ i, ¬ Garbled values i)
  built : ∀ c, b.finish = .ok c → c.Built (if isText then .utf8 else .binary) (values.map (Column.orNull .bytes))
  long : offsetBound ≤ total values → b.finish = fail .outOfBounds
  garbled : total values < offsetBound → isText = true → (∃ i, Garbled values i) →
    ∃ i, Garbled values i ∧ (∀ j < i, ¬ Garbled values j) ∧ b.finish = fail (.invalidColumn (.textNotUtf8 i))

theorem VariableBuilder.Holds.finishes {b : VariableBuilder} {isText : Bool} {values : List (Option Buffer)}
    (h : b.Holds isText values) (few : values.length < 2 ^ 60) : b.Finishes isText values := by
  have long (le : offsetBound ≤ total values) : b.finish = fail .outOfBounds := by
    rw [h.finish_eq, if_neg (Nat.not_lt.2 le)]
  have garbled (small : total values < offsetBound) (text : isText = true) (some : ∃ i, Garbled values i) :
      ∃ i, Garbled values i ∧ (∀ j < i, ¬ Garbled values j) ∧ b.finish = fail (.invalidColumn (.textNotUtf8 i)) := by
    classical
    obtain ⟨bad, first⟩ := And.intro (Nat.find_spec some) fun j => Nat.find_min some (m := j)
    exact ⟨_, bad, first, h.finish_refused few small text bad first⟩
  have ok_iff : (∃ c, b.finish = .ok c) ↔ total values < offsetBound ∧ (isText = true → ∀ i, ¬ Garbled values i) := by
    constructor
    · rintro ⟨c, ok⟩
      have small : total values < offsetBound := by
        by_contra le
        cases ok.symm.trans (long (Nat.not_lt.1 le))
      refine ⟨small, fun text i bad => ?_⟩
      obtain ⟨i, -, -, refused⟩ := garbled small text ⟨i, bad⟩
      cases ok.symm.trans refused
    · rintro ⟨small, legible⟩
      obtain ⟨c, ok, -⟩ := h.finish_built few small legible
      exact ⟨c, ok⟩
  refine ⟨ok_iff, fun c ok => ?_, long, garbled⟩
  obtain ⟨small, legible⟩ := ok_iff.1 ⟨c, ok⟩
  obtain ⟨c', ok', built⟩ := h.finish_built few small legible
  cases ok.symm.trans ok'
  exact built

/-- Builders count what they are given, and a finished column has just the elements appended. Numbers and Booleans can
always be finished. -/
theorem Column.built_as_appended :
    (∀ (kind : Primitive) (start : FixedBuilder) (numbers : List (Option Int)), start.Opens kind →
      (∀ n, some n ∈ numbers → kind.Holds n) → numbers.length < 2 ^ 60 →
      (∀ k ≤ numbers.length, ((numbers.take k).foldl FixedBuilder.append start).length = k ∧
        ((numbers.take k).foldl FixedBuilder.append start).nullCount = (numbers.take k).countP (·.isNone)) ∧
      ∃ c, (numbers.foldl FixedBuilder.append start).finish = .ok c ∧
        c.Built (.fixed kind) (numbers.map (orNull .number))) ∧
    (∀ bools : List (Option Bool), bools.length < 2 ^ 60 →
      (∀ k ≤ bools.length, ((bools.take k).foldl BooleanBuilder.append {}).length = k) ∧
      ∃ c, (bools.foldl BooleanBuilder.append {}).finish = .ok c ∧ c.Built .boolean (bools.map (orNull .bool))) ∧
    (∀ (isText : Bool) (values : List (Option Buffer)), values.length < 2 ^ 60 →
      (∀ k ≤ values.length, ((values.take k).foldl VariableBuilder.append { isText }).length = k) ∧
      (values.foldl VariableBuilder.append { isText }).Finishes isText values) := by
  refine ⟨fun kind start numbers opens held few => ⟨fun k hk => ?_, ?_⟩, fun bools few => ⟨fun k hk => ?_, ?_⟩,
    fun isText values few => ⟨fun k hk => ?_, ?_⟩⟩
  · obtain ⟨length, clear⟩ := (FixedBuilder.holds_foldl opens (numbers.take k)).valid.counts
    exact ⟨length.trans (List.length_take_of_le hk), clear⟩
  · exact (FixedBuilder.holds_foldl opens numbers).finish few held
  · exact (BooleanBuilder.holds_foldl (bools.take k)).valid.counts.1.trans (List.length_take_of_le hk)
  · exact (BooleanBuilder.holds_foldl bools).finish few
  · exact (VariableBuilder.holds_foldl isText (values.take k)).valid.counts.1.trans (List.length_take_of_le hk)
  · exact (VariableBuilder.holds_foldl isText values).finishes few

/-- Three numbers with a null among them, two Booleans, and a text behind which comes half a character. -/
theorem Column.built_as_appended_mixed :
    (∃ c, ([some 7, none, some (-1)].foldl FixedBuilder.append { kind := .int16 }).finish = .ok c ∧
      c.Built (.fixed .int16) [.number 7, .null, .number (-1)]) ∧
    (∃ c, ([some true, none].foldl BooleanBuilder.append {}).finish = .ok c ∧ c.Built .boolean [.bool true, .null]) ∧
    (∃ c, ([some #[0xC3, 0xA9], none].foldl VariableBuilder.append { isText := true }).finish = .ok c ∧
      c.Built .utf8 [.bytes #[0xC3, 0xA9], .null]) ∧
    ∃ i, VariableBuilder.Garbled [some #[0xC3, 0xA9], some #[0xC3]] i ∧
      ([some #[0xC3, 0xA9], some #[0xC3]].foldl VariableBuilder.append { isText := true }).finish =
        fail (.invalidColumn (.textNotUtf8 i)) := by
  obtain ⟨fixed, booleans, varying⟩ := Column.built_as_appended
  have held : ∀ n, some n ∈ [some 7, none, some (-1)] → Primitive.int16.Holds n := by
    intro n mem
    obtain rfl | rfl : n = 7 ∨ n = -1 := by simpa using mem
    · decide
    · decide
  refine ⟨(fixed .int16 _ [some 7, none, some (-1)] (.inl rfl) held (by decide)).2,
    (booleans [some true, none] (by decide)).2, ?_, ?_⟩
  · exact ⟨_, rfl, (varying true [some #[0xC3, 0xA9], none] (by decide)).2.built _ rfl⟩
  · have finishes := (varying true [some #[0xC3, 0xA9], some #[0xC3]] (by decide)).2
    obtain ⟨i, bad, -, refused⟩ := finishes.garbled (by decide) rfl ⟨1, _, rfl, by decide⟩
    exact ⟨i, bad, refused⟩

end ColumnStream
