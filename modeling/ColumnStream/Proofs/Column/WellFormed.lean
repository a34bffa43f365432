/-
Well-formed columns. `WellFormed` says what the check of a column asks for, in terms of the column's
bits, offsets and lengths and of no particular order, and `check_eq_ok` that the check accepts just
these columns. `Sound` asks it of a column and of everything below it.
-/
import ColumnStream.Proofs.Bits
import ColumnStream.Proofs.Column.Offsets

namespace ColumnStream.Column

/-! ## Definitions -/

/-- Element `i` is not null, as far as the bitmap says. -/
def present (c : Column) (i : Nat) : Bool :=
  match c.validity? with
  | some validity => Bitmap.isSet validity (c.offset + i)
  | none => true

/-- The stored bytes of element `i`, for values of variable length. -/
def piece (c : Column) (i : Nat) : Buffer := (c.bytesOf .values).extract (c.bound i) (c.bound (i + 1))

/-- The buffer of that role is long enough for every position up to the last. -/
def Room (c : Column) (role : Role) : Prop :=
  ∃ least, c.type.leastLength? role c.stop = some least ∧ least ≤ (c.bytesOf role).size

/-- There is a bitmap with as many nulls as declared, or none and no nulls. -/
def Counted (c : Column) : Prop :=
  match c.validity? with
  | some validity => bytesFor c.stop ≤ validity.size ∧ Bitmap.countClear validity c.offset c.length = .ok c.nullCount
  | none => c.nullCount = 0

/-- The number of elements of a list's child. -/
def itemCount (c : Column) : Nat := (c.children.head?.map (·.length)).getD 0

/-- How far the offsets may go: to the last element of a list's child, or to the end of the values. -/
def reach (c : Column) : Nat :=
  match c.type with
  | .list _ => c.itemCount
  | _ => (c.bytesOf .values).size

/-- What the type asks of the contents. -/
def Filled (c : Column) : Prop :=
  match c.type with
  | .boolean | .fixed _ => True
  | .binary => c.length ≠ 0 → c.Rising (c.bytesOf .values).size
  | .utf8 => (c.length ≠ 0 → c.Rising (c.bytesOf .values).size) ∧
      ∀ i < c.length, c.present i = true → (c.piece i).text?.isSome = true
  | .list _ => c.length ≠ 0 → c.Rising c.itemCount
  | .struct _ => ∀ child ∈ c.children, c.stop ≤ child.length

structure WellFormed (c : Column) : Prop where
  buffers : c.buffers.length = c.type.roles.length
  children : c.children.map (·.type) = c.type.children.map (·.type)
  nulls : c.nullCount ≤ c.length
  word : c.stop < wordSize
  room : ∀ role ∈ c.type.roles, role ≠ .validity → c.Room role
  counted : c.Counted
  filled : c.Filled

/-- `p` holds of a column and of everything below it. -/
inductive Everywhere (p : Column → Prop) : Column → Prop
  | intro {c : Column} (here : p c) (children : ∀ child ∈ c.children, Everywhere p child) : Everywhere p c

namespace Everywhere

variable {p : Column → Prop} {c : Column}

theorem here : Everywhere p c → p c
  | intro here _ => here

theorem children : Everywhere p c → ∀ child ∈ c.children, Everywhere p child
  | intro _ children => children

theorem mono {q : Column → Prop} (h : Everywhere p c) (le : ∀ c, p c → q c) : Everywhere q c := by
  induction h with
  | intro here _ ih => exact .intro (le _ here) ih

end Everywhere

def Sound (c : Column) : Prop := Everywhere WellFormed c

theorem Sound.child {c child : Column} (h : c.Sound) (mem : child ∈ c.children) : child.Sound :=
  h.children child mem

/-! ## Room -/

/-- Where there is room for offsets up to the last position, their places are machine words. -/
theorem Room.offsets {c : Column} (room : c.Room .offsets) (some : c.length ≠ 0) :
    offsetWidth * (c.stop + 1) < wordSize ∧ offsetWidth * (c.stop + 1) ≤ (c.bytesOf .offsets).size := by
  obtain ⟨least, enough, size⟩ := room
  rw [DataType.leastLength?, if_neg (by unfold stop; omega), fitting?_eq_some] at enough
  obtain ⟨word, rfl⟩ := enough
  exact ⟨word, size⟩

theorem WellFormed.room_bits {c : Column} (wf : c.WellFormed) (type : c.type = .boolean) :
    c.offset + c.length ≤ 8 * (c.bytesOf .values).size := by
  obtain ⟨least, enough, size⟩ := wf.room .values (by simp [type, DataType.roles]) (by decide)
  simp only [type, DataType.leastLength?, Option.some.injEq] at enough
  rw [← enough, bytesFor_eq, stop] at size
  omega

theorem WellFormed.room_words {c : Column} (wf : c.WellFormed) {p : Primitive} (type : c.type = .fixed p) :
    (c.offset + c.length) * p.width < wordSize ∧
      (c.offset + c.length) * p.width ≤ (c.bytesOf .values).size := by
  obtain ⟨least, enough, size⟩ := wf.room .values (by simp [type, DataType.roles]) (by decide)
  rw [type, DataType.leastLength?, fitting?_eq_some] at enough
  obtain ⟨word, rfl⟩ := enough
  exact ⟨word, size⟩

/-! ## Nulls -/

theorem isValid_eq {c : Column} (counted : c.Counted) (word : c.stop < wordSize) {i : Nat} (hi : i < c.length) :
    c.isValid i = .ok (c.present i) := by
  unfold stop at word
  unfold Counted at counted
  unfold isValid present
  rw [if_pos hi]
  cases found : c.validity? with
  | some validity =>
    simp only [found] at counted
    have size := counted.1
    rw [bytesFor_eq, stop] at size
    simp only [Word.add_eq_ok (show c.offset + i < wordSize by omega), ok_bind]
    exact Bitmap.get_isSet (by omega)
  | none =>
    simp only [found] at counted
    simp [counted]

theorem unlessNull_eq {α : Type} {c : Column} (counted : c.Counted) (word : c.stop < wordSize) {i : Nat}
    (hi : i < c.length) (read : Result α) :
    c.unlessNull i read = if c.present i then some <$> read else .ok none := by
  rw [unlessNull, isValid_eq counted word hi, ok_bind]
  rfl

/-- The declared null count is the number of null elements. -/
theorem Counted.nullCount_eq {c : Column} (counted : c.Counted) :
    c.nullCount = (List.range c.length).countP fun i => !c.present i := by
  unfold Counted at counted
  unfold present
  split at counted
  · exact Bitmap.countClear_ok counted.2
  · simp [counted]

theorem Counted.present_of_none {c : Column} (counted : c.Counted) (none : c.nullCount = 0) {i : Nat}
    (hi : i < c.length) : c.present i = true := by
  have all := counted.nullCount_eq
  rw [none, eq_comm, List.countP_eq_zero] at all
  simpa using all i (List.mem_range.2 hi)

/-! ## Shape -/

theorem checkChildTypes_eq_ok {children : List Column} {fields : List Field}
    (length : children.length = fields.length) :
    checkChildTypes children fields = .ok () ↔ children.map (·.type) = fields.map (·.type) := by
  induction children generalizing fields with
  | nil =>
    cases fields with
    | nil => simp [checkChildTypes]
    | cons _ _ => simp at length
  | cons child children ih =>
    cases fields with
    | nil => simp at length
    | cons field fields =>
      simp only [List.map_cons, List.cons.injEq, checkChildTypes]
      split
      · rename_i same
        simp [same, ih (by simpa using length)]
      · rename_i other
        exact ⟨fun h => (nomatch h), fun h => absurd h.1 other⟩

theorem checkShape_eq_ok {c : Column} :
    c.checkShape = .ok () ↔
      c.buffers.length = c.type.roles.length ∧ c.children.map (·.type) = c.type.children.map (·.type) := by
  unfold checkShape
  by_cases buffers : c.buffers.length = c.type.roles.length
  · by_cases children : c.children.length = c.type.children.length
    · simp [buffers, children, checkChildTypes_eq_ok children]
    · rw [if_neg (by simpa using buffers), if_pos children]
      refine ⟨fun h => (nomatch h), fun h => absurd ?_ children⟩
      simpa using congrArg List.length h.2
  · rw [if_pos buffers]
    exact ⟨fun h => (nomatch h), fun h => absurd h.1 buffers⟩

theorem checkExtent_eq_ok {c : Column} :
    c.checkExtent = .ok () ↔ c.nullCount ≤ c.length ∧ c.stop < wordSize := by
  unfold checkExtent
  split
  · exact ⟨fun h => (nomatch h), fun h => by omega⟩
  · split
    · exact ⟨fun h => (nomatch h), fun h => by omega⟩
    · exact ⟨fun _ => by omega, fun _ => rfl⟩

/-- One buffer for each role, in the order of the roles. -/
theorem buffers_eq {c : Column} (h : c.buffers.length = c.type.roles.length) :
    c.buffers = c.type.roles.map c.bytesOf := by
  obtain ⟨type, length, nulls, offset, buffers, children⟩ := c
  have cases2 {a b : Role} (hab : a ≠ b) (hr : type.roles = [a, b]) :
      buffers = [a, b].map (Column.bytesOf ⟨type, length, nulls, offset, buffers, children⟩) := by
    obtain ⟨x, y, rfl⟩ := List.length_eq_two.1 (show buffers.length = 2 by simpa [hr] using h)
    simp [bytesOf, buffer?, hr, List.findIdx?_cons, hab]
  have cases3 {a b d : Role} (hab : a ≠ b) (had : a ≠ d) (hbd : b ≠ d) (hr : type.roles = [a, b, d]) :
      buffers = [a, b, d].map (Column.bytesOf ⟨type, length, nulls, offset, buffers, children⟩) := by
    obtain ⟨x, y, z, rfl⟩ := List.length_eq_three.1 (show buffers.length = 3 by simpa [hr] using h)
    simp [bytesOf, buffer?, hr, List.findIdx?_cons, hab, had, hbd]
  show buffers = type.roles.map _
  cases type with
  | boolean => exact cases2 (by decide) rfl
  | fixed p => exact cases2 (by decide) rfl
  | binary => exact cases3 (by decide) (by decide) (by decide) rfl
  | utf8 => exact cases3 (by decide) (by decide) (by decide) rfl
  | list item => exact cases2 (by decide) rfl
  | struct members =>
    obtain ⟨x, rfl⟩ := List.length_eq_one_iff.1 (show buffers.length = 1 from h)
    simp [bytesOf, buffer?, DataType.roles, List.findIdx?_cons]

theorem validity?_eq {c : Column} (h : c.buffers.length = c.type.roles.length) :
    c.validity? = if (c.bytesOf .validity).isEmpty then none else some (c.bytesOf .validity) := by
  have some : ∃ b, c.buffer? .validity = some b := by
    have head : c.type.roles.findIdx? (· == .validity) = some 0 := by
      cases c.type <;> rfl
    have pos : 0 < c.buffers.length := by
      rw [h]
      cases c.type <;> simp [DataType.roles]
    exact ⟨c.buffers[0], by simp [buffer?, head, pos]⟩
  obtain ⟨b, found⟩ := some
  simp only [validity?, bytesOf, found, Option.filter_some, Option.getD_some]
  cases b.isEmpty <;> rfl

/-! ## Buffers -/

theorem checkBuffers_eq_ok {c : Column} {roles : List Role} :
    c.checkBuffers (roles.map c.bytesOf) roles = .ok () ↔
      ∀ role ∈ roles, c.checkBuffer (c.bytesOf role) role = .ok () := by
  induction roles with
  | nil => simp [checkBuffers]
  | cons role roles ih =>
    simp only [List.map_cons, checkBuffers, bind_eq_ok, ih, List.forall_mem_cons]
    exact ⟨fun ⟨(), h⟩ => h, fun h => ⟨(), h⟩⟩

theorem checkBuffer_eq_ok {c : Column} {role : Role} (h : role ≠ .validity) :
    c.checkBuffer (c.bytesOf role) role = .ok () ↔ c.Room role := by
  unfold checkBuffer Room
  rw [if_neg (by simp [h])]
  split
  · rename_i none
    simp only [none]
    exact ⟨fun h => (nomatch h), fun ⟨_, h, _⟩ => (nomatch h)⟩
  · rename_i least some
    simp only [some, Option.some.injEq, exists_eq_left']
    split
    · rename_i le
      exact ⟨fun _ => le, fun _ => rfl⟩
    · rename_i short
      exact ⟨fun h => (nomatch h), fun h => absurd h short⟩

theorem checkValidity_eq_ok {c : Column} (h : c.buffers.length = c.type.roles.length) :
    c.checkBuffer (c.bytesOf .validity) .validity = .ok () ∧ c.checkNulls = .ok () ↔ c.Counted := by
  unfold checkBuffer checkNulls Counted
  rw [validity?_eq h]
  split
  · rename_i absent
    rw [if_pos absent.2]
    split
    · rename_i none
      exact ⟨fun _ => none, fun _ => ⟨rfl, rfl⟩⟩
    · rename_i nulls
      exact ⟨fun h => (nomatch h.1), fun h => absurd h nulls⟩
  · rename_i stored
    rw [if_neg (by simpa using stored)]
    simp only [DataType.leastLength?, bind_eq_ok]
    split
    · rename_i enough
      constructor
      · rintro ⟨-, counted, run, h⟩
        split at h
        · rename_i same
          exact ⟨enough, same ▸ run⟩
        · cases h
      · rintro ⟨-, run⟩
        exact ⟨rfl, _, run, by rw [if_pos rfl]⟩
    · rename_i short
      exact ⟨fun h => (nomatch h.1), fun h => absurd h.1 short⟩

theorem roles_validity (t : DataType) : .validity ∈ t.roles := by
  cases t <;> simp [DataType.roles]

/-! ## Contents -/

theorem variableBytes_eq {c : Column} (word : c.stop < wordSize) (rising : c.Rising (c.bytesOf .values).size)
    {i : Nat} (hi : i < c.length) : c.variableBytes i = .ok (c.piece i) := by
  have le := rising.mono i hi
  have inside := rising.bound_le (k := i + 1) hi
  rw [variableBytes, rising.extent_eq word hi, ok_bind]
  simp only
  rw [Buffer.range, if_pos le, Buffer.slice_eq_ok (by omega), Nat.add_sub_cancel' le]
  rfl

theorem checkText_eq_ok {c : Column} (counted : c.Counted) (word : c.stop < wordSize)
    (rising : c.Rising (c.bytesOf .values).size) {i : Nat} (hi : i < c.length) :
    c.checkText i = .ok () ↔ (c.present i = true → (c.piece i).text?.isSome = true) := by
  rw [checkText, unlessNull_eq counted word hi, variableBytes_eq word rising hi]
  cases c.present i with
  | false => exact ⟨fun _ h => (nomatch h), fun _ => rfl⟩
  | true =>
    show (if (c.piece i).text?.isSome = true then Except.ok () else refuse _) = .ok () ↔ _
    split
    · rename_i text
      exact ⟨fun _ _ => text, fun _ => rfl⟩
    · rename_i other
      exact ⟨fun h => (nomatch h), fun h => absurd (h rfl) other⟩

theorem checkTexts_eq_ok {c : Column} {i count : Nat} :
    c.checkTexts i count = .ok () ↔ ∀ k < count, c.checkText (i + k) = .ok () := by
  induction count generalizing i with
  | zero => simp [checkTexts]
  | succ count ih =>
    simp only [checkTexts, bind_eq_ok, ih]
    constructor
    · rintro ⟨⟨⟩, first, rest⟩ k hk
      cases k with
      | zero => exact first
      | succ k => simpa [Nat.add_right_comm, Nat.add_assoc] using rest k (by omega)
    · intro h
      refine ⟨(), h 0 (by omega), fun k hk => ?_⟩
      simpa [Nat.add_right_comm, Nat.add_assoc] using h (k + 1) (by omega)

theorem checkMembers_eq_ok {c : Column} {children : List Column} :
    c.checkMembers children = .ok () ↔ ∀ child ∈ children, c.stop ≤ child.length := by
  induction children with
  | nil => simp [checkMembers]
  | cons child children ih =>
    simp only [checkMembers, List.forall_mem_cons]
    split
    · rename_i long
      simp [long, ih]
    · rename_i short
      exact ⟨fun h => (nomatch h), fun h => absurd h.1 short⟩

theorem checkContents_eq_ok {c : Column} (counted : c.Counted) (word : c.stop < wordSize) :
    c.checkContents = .ok () ↔ c.Filled := by
  unfold checkContents Filled
  cases c.type with
  | boolean => simp
  | fixed p => simp
  | binary => exact checkOffsets_eq_ok
  | utf8 =>
    simp only [bind_eq_ok, checkTexts_eq_ok, Nat.zero_add]
    have texts (rising : c.length ≠ 0 → c.Rising (c.bytesOf .values).size) {i : Nat} (hi : i < c.length) :=
      checkText_eq_ok counted word (rising (by omega)) hi
    constructor
    · rintro ⟨⟨⟩, offsets, ok⟩
      have rising := checkOffsets_eq_ok.1 offsets
      exact ⟨rising, fun i hi => (texts rising hi).1 (ok i hi)⟩
    · rintro ⟨rising, ok⟩
      exact ⟨(), checkOffsets_eq_ok.2 rising, fun i hi => (texts rising hi).2 (ok i hi)⟩
  | list item => exact checkOffsets_eq_ok
  | struct members => exact checkMembers_eq_ok

/-- The offsets of a well-formed column rise up to what they reach. -/
theorem WellFormed.rising {c : Column} (wf : c.WellFormed) (role : .offsets ∈ c.type.roles) (some : c.length ≠ 0) :
    c.Rising c.reach := by
  have filled := wf.filled
  unfold Filled at filled
  unfold reach
  cases type : c.type with
  | boolean => simp [type, DataType.roles] at role
  | fixed kind => simp [type, DataType.roles] at role
  | binary =>
    simp only [type] at filled
    exact filled some
  | utf8 =>
    simp only [type] at filled
    exact filled.1 some
  | list item =>
    simp only [type] at filled
    exact filled some
  | struct fields => simp [type, DataType.roles] at role

theorem WellFormed.rising_values {c : Column} (wf : c.WellFormed) (variable_ : c.type = .binary ∨ c.type = .utf8) :
    c.length ≠ 0 → c.Rising (c.bytesOf .values).size := by
  have role : .offsets ∈ c.type.roles := by rcases variable_ with type | type <;> simp [type, DataType.roles]
  have reach : c.reach = (c.bytesOf .values).size := by rcases variable_ with type | type <;> simp [reach, type]
  exact reach ▸ wf.rising role

/-! ## The check -/

/-- Where nothing else is amiss, the check is a check of the contents. -/
theorem check_eq_contents {c : Column} (buffers : c.buffers.length = c.type.roles.length)
    (children : c.children.map (·.type) = c.type.children.map (·.type)) (nulls : c.nullCount ≤ c.length)
    (word : c.stop < wordSize) (room : ∀ role ∈ c.type.roles, role ≠ .validity → c.Room role) (counted : c.Counted) :
    c.check = c.checkContents := by
  obtain ⟨validity, marked⟩ := (checkValidity_eq_ok buffers).2 counted
  have long : c.checkBuffers c.buffers c.type.roles = .ok () := by
    rw [buffers_eq buffers, checkBuffers_eq_ok]
    intro role mem
    by_cases other : role = .validity
    · exact other ▸ validity
    · exact (checkBuffer_eq_ok other).2 (room role mem other)
  rw [check, checkShape_eq_ok.2 ⟨buffers, children⟩, ok_bind, checkExtent_eq_ok.2 ⟨nulls, word⟩, ok_bind, long, ok_bind,
    marked, ok_bind]

/-- The check accepts the well-formed columns and no others. -/
theorem check_eq_ok {c : Column} : c.check = .ok () ↔ c.WellFormed := by
  constructor
  · simp only [check, bind_eq_ok]
    rintro ⟨⟨⟩, shape, ⟨⟩, extent, ⟨⟩, buffers, ⟨⟩, nulls, contents⟩
    obtain ⟨count, types⟩ := checkShape_eq_ok.1 shape
    obtain ⟨le, word⟩ := checkExtent_eq_ok.1 extent
    rw [buffers_eq count, checkBuffers_eq_ok] at buffers
    -- The bitmap is checked for its length with the other buffers and for its nulls later; `Counted` is both.
    have counted := (checkValidity_eq_ok count).1 ⟨buffers _ (roles_validity _), nulls⟩
    exact ⟨count, types, le, word, fun role mem other => (checkBuffer_eq_ok other).1 (buffers role mem), counted,
      (checkContents_eq_ok counted word).1 contents⟩
  · intro h
    exact (check_eq_contents h.buffers h.children h.nulls h.word h.room h.counted).trans
      ((checkContents_eq_ok h.counted h.word).2 h.filled)

end ColumnStream.Column
