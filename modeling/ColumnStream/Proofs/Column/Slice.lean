/-
Slices. A slice moves the offset and counts the nulls anew, so that element `i` of it is element
`start + i` of the column; it is well formed again, and no slice within the column's elements fails
as long as its bitmaps end before the word does.
-/
import ColumnStream.Proofs.Column.WellFormed

namespace ColumnStream

theorem DataType.leastLength?_mono {t : DataType} {role : Role} {m n least : Nat} (h : m ≤ n)
    (enough : t.leastLength? role n = some least) : ∃ less, t.leastLength? role m = some less ∧ less ≤ least := by
  have fit {a b : Nat} (hab : a ≤ b) (fits : fitting? b = some least) : fitting? a = some a ∧ a ≤ least := by
    obtain ⟨word, rfl⟩ := fitting?_eq_some.1 fits
    exact ⟨fitting?_eq_some.2 ⟨by omega, rfl⟩, hab⟩
  cases role with
  | validity =>
    cases enough
    exact ⟨_, rfl, bytesFor_mono h⟩
  | offsets =>
    simp only [leastLength?] at *
    by_cases none : m = 0
    · exact ⟨0, if_pos none, Nat.zero_le _⟩
    · rw [if_neg (by omega)] at enough
      obtain ⟨fits, le⟩ := fit (Nat.mul_le_mul_left offsetWidth (Nat.succ_le_succ h)) enough
      exact ⟨_, by rw [if_neg none]; exact fits, le⟩
  | values =>
    cases t with
    | boolean =>
      cases enough
      exact ⟨_, rfl, bytesFor_mono h⟩
    | fixed p =>
      obtain ⟨fits, le⟩ := fit (Nat.mul_le_mul_right p.width h) enough
      exact ⟨_, fits, le⟩
    | binary | utf8 | list _ | struct _ => exact ⟨0, rfl, Nat.zero_le _⟩

namespace Column

/-! ## What a slice is -/

/-- Elements `start` to `start + count` of a column. -/
def part (c : Column) (start count : Nat) : Column :=
  { c with
    length := count
    nullCount := (List.range count).countP fun i => !c.present (start + i)
    offset := c.offset + start }

section

variable (c : Column) (start count : Nat)

@[simp] theorem part_type : (c.part start count).type = c.type := rfl

@[simp] theorem part_length : (c.part start count).length = count := rfl

@[simp] theorem part_offset : (c.part start count).offset = c.offset + start := rfl

@[simp] theorem part_children : (c.part start count).children = c.children := rfl

@[simp] theorem part_bytesOf (role : Role) : (c.part start count).bytesOf role = c.bytesOf role := rfl

@[simp] theorem part_validity? : (c.part start count).validity? = c.validity? := rfl

@[simp] theorem part_present (i : Nat) : (c.part start count).present i = c.present (start + i) := by
  simp [present, Nat.add_assoc]

@[simp] theorem part_bound (k : Nat) : (c.part start count).bound k = c.bound (start + k) := by
  simp [bound, Nat.add_assoc]

@[simp] theorem part_piece (i : Nat) : (c.part start count).piece i = c.piece (start + i) := by
  simp [piece, Nat.add_assoc]

/-- A slice of a slice is a slice. -/
theorem part_part (first size : Nat) : (c.part start count).part first size = c.part (start + first) size := by
  have nulls : ((c.part start count).part first size).nullCount = (c.part (start + first) size).nullCount :=
    List.countP_congr fun i _ => by rw [part_present, Nat.add_assoc]
  exact congrArg₂ (fun nulls offset => Column.mk c.type size nulls offset c.buffers c.children) nulls
    (Nat.add_assoc ..)

end

/-- Every bitmap ends a byte or more before the last position of a word, so that counts over it stay
inside the word. -/
def Addressable (c : Column) : Prop :=
  Everywhere (fun c => ∀ validity, c.validity? = some validity → 8 * validity.size + 8 < wordSize) c

theorem Addressable.child {c child : Column} (h : c.Addressable) (mem : child ∈ c.children) : child.Addressable :=
  h.children child mem

theorem Addressable.part {c : Column} (h : c.Addressable) (start count : Nat) : (c.part start count).Addressable :=
  .intro h.here h.children

/-- The nulls among `count` elements whose first one is stored at `position`, as a slice counts them. -/
def recount (c : Column) (position count : Nat) : Result Nat :=
  match c.validity? with
  | some validity => Bitmap.countClear validity position count
  | none => .ok 0

theorem slice_eq (c : Column) (start count : Nat) :
    c.slice start count =
      if start + count < wordSize ∧ start + count ≤ c.length then
        Word.add c.offset start >>= fun offset => c.recount offset count >>= fun nulls =>
          pure { c with length := count, nullCount := nulls, offset := offset }
      else misuse (.slice start count c.length) := by
  unfold slice recount
  cases c.validity? <;> rfl

theorem recount_ok {c : Column} {start count nulls : Nat} (h : c.recount (c.offset + start) count = .ok nulls) :
    nulls = (c.part start count).nullCount := by
  unfold recount at h
  unfold Column.part present
  cases found : c.validity? with
  | none =>
    rw [found] at h
    cases h
    simp
  | some validity =>
    rw [found] at h
    rw [Bitmap.countClear_ok h]
    simp [Bitmap.clearIn, Nat.add_assoc]

/-- A slice that was made lies within the column, and its nulls were counted. -/
theorem slice_ok {c d : Column} {start count : Nat} (h : c.slice start count = .ok d) :
    d = c.part start count ∧ start + count ≤ c.length ∧ c.recount (c.offset + start) count = .ok d.nullCount := by
  rw [slice_eq] at h
  split at h
  · rename_i inside
    obtain ⟨offset, hoffset, h⟩ := bind_eq_ok.1 h
    obtain ⟨nulls, counted, h⟩ := bind_eq_ok.1 h
    obtain ⟨rfl, -⟩ := Word.add_ok hoffset
    cases h
    exact ⟨by rw [recount_ok counted]; rfl, inside.2, counted⟩
  · cases h

theorem slice_eq_ok {c : Column} (wf : c.WellFormed) (addressable : c.Addressable) {start count : Nat}
    (inside : start + count ≤ c.length) : c.slice start count = .ok (c.part start count) := by
  have word := wf.word
  have counted := wf.counted
  unfold stop at word
  unfold Counted at counted
  have counts : ∃ nulls, c.recount (c.offset + start) count = .ok nulls := by
    unfold recount
    cases found : c.validity? with
    | none => exact ⟨0, rfl⟩
    | some validity =>
      simp only [found] at counted
      have size := counted.1
      have room := addressable.here validity found
      rw [bytesFor_eq, stop] at size
      exact ⟨_, Bitmap.countClear_eq_ok (by omega) (by omega) (by omega)⟩
  obtain ⟨nulls, ran⟩ := counts
  rw [slice_eq, if_pos ⟨by omega, inside⟩, Word.add_eq_ok (by omega), ok_bind, ran, ok_bind, recount_ok ran]
  rfl

/-! ## Slices are well formed -/

theorem stop_part_le {c : Column} {start count : Nat} (inside : start + count ≤ c.length) :
    (c.part start count).stop ≤ c.stop := by
  simp only [stop, part_offset, part_length]
  omega

theorem Rising.part {c : Column} {limit start count : Nat} (h : c.Rising limit)
    (inside : start + count ≤ c.length) : (c.part start count).Rising limit := by
  refine ⟨fun k hk => ?_, fun k hk => ?_, ?_⟩
  · rw [part_bytesOf, part_offset, Nat.add_assoc]
    exact h.readable _ (by simp only [part_length] at hk; omega)
  · rw [part_bound, part_bound, ← Nat.add_assoc]
    exact h.mono _ (by simp only [part_length] at hk; omega)
  · rw [part_bound, part_length]
    exact h.bound_le inside

theorem Filled.part {c : Column} {start count : Nat} (h : c.Filled) (inside : start + count ≤ c.length) :
    (c.part start count).Filled := by
  unfold Filled at *
  rw [part_type]
  have rising {limit : Nat} (h : c.length ≠ 0 → c.Rising limit) (some : count ≠ 0) :
      (c.part start count).Rising limit := (h (by omega)).part inside
  cases type : c.type with
  | boolean => trivial
  | fixed p => trivial
  | binary =>
    simp only [type] at h
    exact fun some => rising h some
  | utf8 =>
    simp only [type] at h
    refine ⟨fun some => rising h.1 some, fun i hi => ?_⟩
    rw [part_present, part_piece]
    exact h.2 _ (by simp only [part_length] at hi; omega)
  | list item =>
    simp only [type] at h
    exact fun some => rising h some
  | struct members =>
    simp only [type] at h
    exact fun child mem => (stop_part_le inside).trans (h child mem)

theorem WellFormed.slice {c d : Column} {start count : Nat} (wf : c.WellFormed) (h : c.slice start count = .ok d) :
    d.WellFormed := by
  obtain ⟨rfl, inside, ran⟩ := slice_ok h
  have le := stop_part_le inside
  have word := wf.word
  refine ⟨wf.buffers, wf.children, ?_, lt_of_le_of_lt le word, fun role mem other => ?_, ?_, wf.filled.part inside⟩
  · have := List.countP_le_length (p := fun i => !c.present (start + i)) (l := List.range count)
    rwa [List.length_range] at this
  · obtain ⟨least, enough, size⟩ := wf.room role mem other
    obtain ⟨less, enough', le'⟩ := DataType.leastLength?_mono le enough
    exact ⟨less, enough', le'.trans size⟩
  · have counted := wf.counted
    unfold Counted at *
    rw [part_validity?]
    cases found : c.validity? with
    | none => simp [Column.part, present, found]
    | some validity =>
      simp only [found] at counted ⊢
      refine ⟨(bytesFor_mono le).trans counted.1, ?_⟩
      -- The count was made by the slice itself, which would not have ended without it.
      simpa [recount, found] using ran

theorem Sound.slice {c d : Column} {start count : Nat} (sound : c.Sound) (h : c.slice start count = .ok d) :
    d.Sound := by
  have children : d.children = c.children := by rw [(slice_ok h).1, part_children]
  exact .intro (sound.here.slice h) (children ▸ sound.children)

/-- Slices within a sound column never fail, and are sound. -/
theorem Sound.slice_part {c : Column} (sound : c.Sound) (addressable : c.Addressable) {start count : Nat}
    (inside : start + count ≤ c.length) :
    c.slice start count = .ok (c.part start count) ∧ (c.part start count).Sound := by
  have ok := slice_eq_ok sound.here addressable inside
  exact ⟨ok, sound.slice ok⟩

end Column

end ColumnStream
