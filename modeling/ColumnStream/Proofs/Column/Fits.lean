/-
Parts that fit together. `Fits` lists what is asked of the parts of a column, rule by rule and in terms of bits,
signed offsets and bytes alone; the check accepts just the parts that fit, and refuses all others for a cause that
lies in them.
-/
import ColumnStream.Proofs.Column.Total

namespace ColumnStream.Column

/-! ## Signed offsets -/

/-- The number that entry `position` of an offsets buffer spells, with its sign. -/
def spelled (offsets : Buffer) (position : Nat) : Int :=
  Primitive.int32.decode
    (offsets.extract (position * offsetWidth) (position * offsetWidth + offsetWidth)).toList

/-- Entry `k` of the column's own offsets. -/
def signed (c : Column) (k : Nat) : Int := spelled (c.bytesOf .offsets) (c.offset + k)

/-- The column's own offsets start at zero or above, never go down, and end within what they point into. -/
structure Ascends (c : Column) : Prop where
  nonneg : ∀ k ≤ c.length, 0 ≤ c.signed k
  rises : ∀ k < c.length, c.signed k ≤ c.signed (k + 1)
  ends : c.signed c.length ≤ c.reach

/-- The bytes between the two offsets of element `i`. -/
def between (c : Column) (i : Nat) : Buffer :=
  (c.bytesOf .values).extract (c.signed i).toNat (c.signed (i + 1)).toNat

/-! ## What is asked of the parts -/

structure Fits (c : Column) : Prop where
  buffers : c.buffers.length = c.type.roles.length
  children : c.children.map (·.type) = c.type.children.map (·.type)
  nulls : c.nullCount ≤ c.length
  positions : c.offset + c.length < wordSize
  unmarked : c.bytesOf .validity = #[] → c.nullCount = 0
  /-- Every buffer but an empty bitmap has the least length for every position up to the last, and that length is
  itself a machine word. -/
  long : ∀ role ∈ c.type.roles, (role = .validity → c.bytesOf .validity ≠ #[]) →
    ∃ least, c.type.leastLength? role (c.offset + c.length) = some least ∧ least ≤ (c.bytesOf role).size
  marked : c.bytesOf .validity ≠ #[] → Bitmap.clearIn (c.bytesOf .validity) c.offset c.length = c.nullCount
  offsets : .offsets ∈ c.type.roles → c.length ≠ 0 → c.Ascends
  texts : c.type = .utf8 → ∀ i < c.length, c.present i = true → (c.between i).text?.isSome = true
  members : ∀ fields, c.type = .struct fields → ∀ child ∈ c.children, c.offset + c.length ≤ child.length

/-! ## Offsets that can be read -/

theorem offsetEntry_eq {offsets : Buffer} {position : Nat}
    (inside : position * offsetWidth + offsetWidth ≤ offsets.size)
    (word : position * offsetWidth + offsetWidth < wordSize) :
    offsetEntry offsets position =
      if 0 ≤ spelled offsets position then .ok (spelled offsets position).toNat
      else fail (.invalidOffsets (.negative (spelled offsets position) position)) := by
  rw [offsetEntry, Word.mul_eq_ok (by omega), ok_bind, Word.add_eq_ok word, ok_bind, if_pos inside]
  rfl

/-- Where there is an entry, it can be read just if it is not negative, and is then what it spells. -/
theorem readable_iff {offsets : Buffer} {position : Nat} (inside : position * offsetWidth + offsetWidth ≤ offsets.size)
    (word : position * offsetWidth + offsetWidth < wordSize) :
    (Readable offsets position ↔ 0 ≤ spelled offsets position) ∧
      entry offsets position = (spelled offsets position).toNat := by
  have read := offsetEntry_eq inside word
  by_cases nonneg : 0 ≤ spelled offsets position
  · rw [if_pos nonneg] at read
    obtain ⟨readable, value⟩ := readable_of_ok read
    exact ⟨⟨fun _ => nonneg, fun _ => readable⟩, value⟩
  · rw [if_neg nonneg] at read
    refine ⟨⟨fun h => ?_, fun h => absurd h nonneg⟩, ?_⟩
    · cases read.symm.trans h
    · rw [entry, read, Int.toNat_of_nonpos (by omega)]
      rfl

/-- A buffer with room for offsets has an entry at every position up to the last. -/
theorem Room.entry_inside {c : Column} (room : c.Room .offsets) (some : c.length ≠ 0) {k : Nat} (hk : k ≤ c.length) :
    (c.offset + k) * offsetWidth + offsetWidth ≤ (c.bytesOf .offsets).size ∧
      (c.offset + k) * offsetWidth + offsetWidth < wordSize := by
  obtain ⟨word, size⟩ := room.offsets some
  unfold stop offsetWidth at *
  omega

theorem readable_own {c : Column} (room : c.Room .offsets) (some : c.length ≠ 0) {k : Nat} (hk : k ≤ c.length) :
    (Readable (c.bytesOf .offsets) (c.offset + k) ↔ 0 ≤ c.signed k) ∧ c.bound k = (c.signed k).toNat := by
  obtain ⟨inside, word⟩ := room.entry_inside some hk
  exact readable_iff inside word

theorem rising_iff {c : Column} (room : c.Room .offsets) (some : c.length ≠ 0) : c.Rising c.reach ↔ c.Ascends := by
  have read {k : Nat} (hk : k ≤ c.length) := readable_own room some hk
  constructor
  · intro h
    have nonneg {k : Nat} (hk : k ≤ c.length) : 0 ≤ c.signed k := (read hk).1.1 (h.readable k hk)
    refine ⟨fun k hk => nonneg hk, fun k hk => ?_, ?_⟩
    · have step := h.mono k hk
      have low := nonneg (Nat.le_of_lt hk)
      have high := nonneg (show k + 1 ≤ c.length from hk)
      rw [(read (Nat.le_of_lt hk)).2, (read (show k + 1 ≤ c.length from hk)).2] at step
      omega
    · have last := h.last
      rw [(read (le_refl _)).2] at last
      omega
  · intro h
    refine ⟨fun k hk => (read hk).1.2 (h.nonneg k hk), fun k hk => ?_, ?_⟩
    · have step := h.rises k hk
      rw [(read (Nat.le_of_lt hk)).2, (read (show k + 1 ≤ c.length from hk)).2]
      omega
    · have ends := h.ends
      rw [(read (le_refl _)).2]
      omega

theorem piece_eq_between {c : Column} (room : c.Room .offsets) {i : Nat} (hi : i < c.length) :
    c.piece i = c.between i := by
  have some : c.length ≠ 0 := by omega
  rw [piece, between, (readable_own room some (Nat.le_of_lt hi)).2, (readable_own room some hi).2]

/-! ## The rules against the check -/

theorem isEmpty_iff {b : Buffer} : b.isEmpty = true ↔ b = #[] := by simp

/-- A bitmap is long enough and has the declared nulls, or there is none and no nulls. -/
theorem counted_iff {c : Column} (count : c.buffers.length = c.type.roles.length) (word : c.stop < wordSize)
    (step : ∀ validity, c.validity? = some validity → bytesFor c.stop ≤ validity.size → c.offset + 8 < wordSize) :
    c.Counted ↔ (c.bytesOf .validity = #[] → c.nullCount = 0) ∧
      (c.bytesOf .validity ≠ #[] → bytesFor c.stop ≤ (c.bytesOf .validity).size ∧
        Bitmap.clearIn (c.bytesOf .validity) c.offset c.length = c.nullCount) := by
  have found := validity?_eq count
  unfold Counted
  by_cases absent : c.bytesOf .validity = #[]
  · rw [if_pos (isEmpty_iff.2 absent)] at found
    simp [found, absent]
  · rw [if_neg (mt isEmpty_iff.1 absent)] at found
    simp only [found, absent, false_imp_iff, true_and, ne_eq, not_false_eq_true, forall_true_left]
    refine and_congr_right fun size => ?_
    have small := step _ found size
    rw [bytesFor_eq] at size
    unfold stop at size word
    rw [Bitmap.countClear_eq_ok word small (by omega), Except.ok.injEq]

/-- What the type asks of the contents, once there is room for offsets. -/
theorem filled_iff {c : Column} (room : .offsets ∈ c.type.roles → c.Room .offsets) :
    c.Filled ↔ (.offsets ∈ c.type.roles → c.length ≠ 0 → c.Ascends) ∧
      (c.type = .utf8 → ∀ i < c.length, c.present i = true → (c.between i).text?.isSome = true) ∧
        ∀ fields, c.type = .struct fields → ∀ child ∈ c.children, c.offset + c.length ≤ child.length := by
  have offsets (mem : .offsets ∈ c.type.roles) : (c.length ≠ 0 → c.Rising c.reach) ↔ (c.length ≠ 0 → c.Ascends) :=
    forall_congr' fun some => rising_iff (room mem) some
  unfold Filled
  cases type : c.type with
  | boolean => simp [DataType.roles]
  | fixed p => simp [DataType.roles]
  | binary =>
    have reach : c.reach = (c.bytesOf .values).size := by simp [reach, type]
    have mem : .offsets ∈ c.type.roles := by simp [type, DataType.roles]
    simp [← offsets mem, reach, DataType.roles]
  | utf8 =>
    have reach : c.reach = (c.bytesOf .values).size := by simp [reach, type]
    have mem : .offsets ∈ c.type.roles := by simp [type, DataType.roles]
    have texts : (∀ i < c.length, c.present i = true → (c.piece i).text?.isSome = true) ↔
        ∀ i < c.length, c.present i = true → (c.between i).text?.isSome = true :=
      forall₂_congr fun i hi => by rw [piece_eq_between (room mem) hi]
    simp [← offsets mem, reach, DataType.roles, texts]
  | list item =>
    have reach : c.reach = c.itemCount := by simp [reach, type]
    have mem : .offsets ∈ c.type.roles := by simp [type, DataType.roles]
    simp [← offsets mem, reach, DataType.roles]
  | struct members => simp [DataType.roles, stop]

/-- A well-formed column is one whose parts fit. -/
theorem wellFormed_iff_fits {c : Column}
    (step : ∀ validity, c.validity? = some validity → bytesFor c.stop ≤ validity.size → c.offset + 8 < wordSize) :
    c.WellFormed ↔ c.Fits := by
  constructor
  · intro wf
    obtain ⟨unmarked, marked⟩ := (counted_iff wf.buffers wf.word step).1 wf.counted
    obtain ⟨offsets, texts, members⟩ := (filled_iff fun mem => wf.room _ mem (by decide)).1 wf.filled
    refine ⟨wf.buffers, wf.children, wf.nulls, wf.word, unmarked, fun role mem stored => ?_,
      fun stored => (marked stored).2, offsets, texts, members⟩
    by_cases bitmap : role = .validity
    · subst bitmap
      exact ⟨_, rfl, (marked (stored rfl)).1⟩
    · exact wf.room role mem bitmap
  · intro h
    have room (role : Role) (mem : role ∈ c.type.roles) (other : role ≠ .validity) : c.Room role :=
      h.long role mem fun bitmap => absurd bitmap other
    refine ⟨h.buffers, h.children, h.nulls, h.positions, room, ?_, ?_⟩
    · refine (counted_iff h.buffers h.positions step).2 ⟨h.unmarked, fun stored => ⟨?_, h.marked stored⟩⟩
      obtain ⟨least, enough, size⟩ := h.long .validity (roles_validity _) fun _ => stored
      cases enough
      exact size
    · exact (filled_iff fun mem => room _ mem (by decide)).2 ⟨h.offsets, h.texts, h.members⟩

/-! ## Assembling -/

theorem validity?_mem {c : Column} {validity : Buffer} (found : c.validity? = some validity) :
    validity ∈ c.buffers := by
  obtain ⟨stored, -⟩ := Option.filter_eq_some_iff.1 found
  obtain ⟨index, -, stored⟩ := Option.bind_eq_some_iff.1 stored
  exact List.mem_of_getElem? stored

/-- Parts are assembled to a column just if they fit together, whatever the numbers among them. Any others are
refused for a cause that lies in the parts, and no call is a fault. Of the buffers it is only asked that a memory
holds them: the last bit of each, and a byte more, has a position that is a machine word. -/
theorem assemble_iff_fits {type : DataType} {length nulls offset : Nat} {buffers : List Buffer}
    {children : List Column} (held : ∀ b ∈ buffers, 8 * b.size + 8 < wordSize) :
    (∀ c, assemble type length nulls offset buffers children = .ok c ↔
      c = ⟨type, length, nulls, offset, buffers, children⟩ ∧ c.Fits) ∧
    (¬ (⟨type, length, nulls, offset, buffers, children⟩ : Column).Fits →
      ∃ cause, assemble type length nulls offset buffers children = fail cause ∧ cause.OfColumn) := by
  obtain ⟨parts, same⟩ : ∃ parts : Column, parts = ⟨type, length, nulls, offset, buffers, children⟩ := ⟨_, rfl⟩
  have step : ∀ validity, parts.validity? = some validity → bytesFor parts.stop ≤ validity.size →
      parts.offset + 8 < wordSize := by
    intro validity found enough
    have room := held validity (by simpa [same] using validity?_mem found)
    rw [bytesFor_eq, stop] at enough
    omega
  have fits : parts.WellFormed ↔ parts.Fits := wellFormed_iff_fits step
  subst same
  refine ⟨fun c => ?_, fun misfit => ?_⟩
  · rw [assemble_eq_ok]
    refine and_congr_right fun same => ?_
    rw [same, fits]
  · rcases (answers_assemble step).cases with ⟨c, -, rfl, wf⟩ | refused
    · exact absurd (fits.1 wf) misfit
    · exact refused

/-- Two texts, the first of which is null over a byte that is no text. -/
def halfHidden : Column := ⟨.utf8, 2, 1, 0, [#[2], #[0, 0, 0, 0, 1, 0, 0, 0, 2, 0, 0, 0], #[0xFF, 0x61]], []⟩

theorem assemble_iff_fits_halfHidden :
    halfHidden.Fits ∧ ∃ cause, assemble .utf8 2 0 0 halfHidden.buffers [] = fail cause ∧ cause.OfColumn := by
  have held : ∀ b ∈ halfHidden.buffers, 8 * b.size + 8 < wordSize := by decide
  have made : assemble .utf8 2 1 0 halfHidden.buffers [] = .ok halfHidden := by rfl
  have uncounted : ¬ (⟨.utf8, 2, 0, 0, halfHidden.buffers, []⟩ : Column).Fits := fun h =>
    absurd (h.marked (by decide)) (by decide)
  exact ⟨(((assemble_iff_fits held).1 _).1 made).2, (assemble_iff_fits held).2 uncounted⟩

example : (assemble (.struct []) 2 0 (wordSize - 3) [#[]] []).isOk = true := by decide

example : (assemble (.struct []) 3 0 (wordSize - 3) [#[]] []).isOk = false := by decide

end ColumnStream.Column
