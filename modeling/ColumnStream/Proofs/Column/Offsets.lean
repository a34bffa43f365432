/-
Offsets buffers: what an entry is, when a run of entries can be read and rises, and that a run
stored anew is read back entry by entry, counted from its first.
-/
import ColumnStream.Column.Check
import ColumnStream.Batch.Encode
import ColumnStream.Proofs.Result
import Mathlib.Tactic

namespace ColumnStream

/-! ## Stored numbers -/

namespace Primitive

theorem even_range (p : Primitive) : p.range % 2 = 0 := by
  cases p <;> decide

theorem decode_holds (p : Primitive) {bs : Bytes} (length : bs.length = p.width) : p.Holds (p.decode bs) := by
  have small : Bytes.toNat bs < p.range := by
    have := Bytes.toNat_lt bs
    rwa [length] at this
  have pos : 0 < p.range := Bytes.card_pos p.width
  have even := p.even_range
  unfold Holds decode
  split
  · have lower := Int.le_bmod (x := (Bytes.toNat bs : Int)) pos
    have upper := Int.bmod_lt (x := (Bytes.toNat bs : Int)) pos
    omega
  · omega

theorem encode_decode (p : Primitive) {bs : Bytes} (length : bs.length = p.width) :
    p.encode (p.decode bs) = bs := by
  have small : Bytes.toNat bs < p.range := by
    have := Bytes.toNat_lt bs
    rwa [length] at this
  have same : (p.decode bs % p.range).toNat = Bytes.toNat bs := by
    unfold decode
    have low : (Bytes.toNat bs : Int) % p.range = Bytes.toNat bs := Int.emod_eq_of_lt (by omega) (by omega)
    split
    · rw [Int.bmod_emod, low, Int.toNat_natCast]
    · rw [low, Int.toNat_natCast]
  rw [encode, same, ← length, Bytes.ofNat_toNat]

/-- Two values of the kind are the same if their bytes are. -/
theorem decode_inj (p : Primitive) {bs cs : Bytes} (hb : bs.length = p.width) (hc : cs.length = p.width) :
    p.decode bs = p.decode cs ↔ bs = cs :=
  ⟨fun h => by rw [← p.encode_decode hb, h, p.encode_decode hc], fun h => h ▸ rfl⟩

end Primitive

namespace Column

/-! ## Entries -/

/-- Entry `position` of an offsets buffer, zero if it cannot be read. -/
def entry (offsets : Buffer) (position : Nat) : Nat := (offsetEntry offsets position).toOption.getD 0

/-- The entry can be read. -/
def Readable (offsets : Buffer) (position : Nat) : Prop :=
  offsetEntry offsets position = .ok (entry offsets position)

theorem readable_of_ok {offsets : Buffer} {position n : Nat} (h : offsetEntry offsets position = .ok n) :
    Readable offsets position ∧ entry offsets position = n := by
  unfold Readable entry
  rw [h]
  exact ⟨rfl, rfl⟩

theorem offsetEntry_lt {offsets : Buffer} {position n : Nat} (h : offsetEntry offsets position = .ok n) :
    n < offsetBound := by
  obtain ⟨start, -, h⟩ := bind_eq_ok.1 h
  obtain ⟨stop, hstop, h⟩ := bind_eq_ok.1 h
  have stop_eq : stop = start + offsetWidth := (Word.add_ok hstop).1
  by_cases inside : stop ≤ offsets.size
  · have length : (offsets.extract start stop).toList.length = Primitive.int32.width := by
      rw [Array.length_toList, Array.size_extract, Nat.min_eq_left inside, stop_eq, Nat.add_sub_cancel_left]
      rfl
    have held := (Primitive.int32.decode_holds length)
    have range : Primitive.int32.range = 2 * offsetBound := rfl
    simp only [Primitive.Holds, Primitive.isSigned, if_true, range] at held
    rw [if_pos inside] at h
    simp only at h
    split at h
    · rw [← Except.ok.inj h]
      omega
    · cases h
  · rw [if_neg inside] at h
    cases h

/-! ## Rising runs -/

/-- Entry `k` of the column's own offsets. -/
def bound (c : Column) (k : Nat) : Nat := entry (c.bytesOf .offsets) (c.offset + k)

/-- The column's offsets can be read, none is below the one before it, and the last one stays within
`limit`. -/
structure Rising (c : Column) (limit : Nat) : Prop where
  readable : ∀ k ≤ c.length, Readable (c.bytesOf .offsets) (c.offset + k)
  mono : ∀ k < c.length, c.bound k ≤ c.bound (k + 1)
  last : c.bound c.length ≤ limit

theorem lastOffset_eq_ok {offsets : Buffer} {p count last : Nat} :
    lastOffset offsets (p + 1) (entry offsets p) count = .ok last ↔
      last = entry offsets (p + count) ∧ ∀ k < count, Readable offsets (p + 1 + k) ∧
        entry offsets (p + k) ≤ entry offsets (p + k + 1) := by
  induction count generalizing p with
  | zero =>
    simp only [lastOffset, Nat.add_zero, Nat.not_lt_zero, false_imp_iff, imp_true_iff, and_true]
    exact ⟨fun h => (Except.ok.inj h).symm, fun h => h ▸ rfl⟩
  | succ count ih =>
    rw [lastOffset, bind_eq_ok]
    constructor
    · rintro ⟨current, hcurrent, h⟩
      obtain ⟨readable, rfl⟩ := readable_of_ok hcurrent
      split at h
      · rename_i le
        obtain ⟨rfl, rest⟩ := ih.1 h
        refine ⟨by rw [Nat.add_right_comm, Nat.add_assoc], fun k hk => ?_⟩
        cases k with
        | zero => exact ⟨readable, le⟩
        | succ k =>
          have := rest k (by omega)
          rwa [show p + 1 + 1 + k = p + 1 + (k + 1) by omega, show p + 1 + k + 1 = p + (k + 1) + 1 by omega,
            show p + 1 + k = p + (k + 1) by omega] at this
      · cases h
    · rintro ⟨rfl, h⟩
      refine ⟨_, (h 0 (by omega)).1, ?_⟩
      have le : entry offsets p ≤ entry offsets (p + 1) := (h 0 (by omega)).2
      rw [Nat.add_zero, if_pos le, ih]
      refine ⟨by rw [Nat.add_right_comm, Nat.add_assoc], fun k hk => ?_⟩
      have := h (k + 1) (by omega)
      rwa [show p + 1 + 1 + k = p + 1 + (k + 1) by omega, show p + 1 + k + 1 = p + (k + 1) + 1 by omega,
        show p + 1 + k = p + (k + 1) by omega]

theorem checkOffsets_eq_ok {c : Column} {limit : Nat} :
    c.checkOffsets limit = .ok () ↔ (c.length ≠ 0 → c.Rising limit) := by
  unfold checkOffsets
  by_cases none : c.length = 0
  · simp [none]
  rw [if_neg none]
  simp only [ne_eq, none, not_false_eq_true, forall_true_left]
  constructor
  · intro h
    obtain ⟨first, hfirst, h⟩ := bind_eq_ok.1 h
    obtain ⟨last, hlast, h⟩ := bind_eq_ok.1 h
    obtain ⟨readable, rfl⟩ := readable_of_ok hfirst
    obtain ⟨rfl, rest⟩ := lastOffset_eq_ok.1 hlast
    split at h
    · rename_i le
      refine ⟨fun k hk => ?_, fun k hk => (rest k hk).2, le⟩
      cases k with
      | zero => exact readable
      | succ k =>
        have := (rest k (by omega)).1
        rwa [show c.offset + 1 + k = c.offset + (k + 1) by omega] at this
    · cases h
  · intro h
    rw [show offsetEntry (c.bytesOf .offsets) c.offset = _ from h.readable 0 (by omega), ok_bind]
    have rest : lastOffset (c.bytesOf .offsets) (c.offset + 1) (entry (c.bytesOf .offsets) c.offset) c.length =
        .ok (c.bound c.length) := by
      refine lastOffset_eq_ok.2 ⟨rfl, fun k hk => ⟨?_, h.mono k hk⟩⟩
      have := h.readable (k + 1) (by omega)
      rwa [show c.offset + (k + 1) = c.offset + 1 + k by omega] at this
    show (lastOffset _ _ (entry (c.bytesOf .offsets) c.offset) _ >>= _) = _
    rw [rest, ok_bind, if_pos h.last]

namespace Rising

variable {c : Column} {limit : Nat}

theorem le_of_le (h : c.Rising limit) {j k : Nat} (hjk : j ≤ k) (hk : k ≤ c.length) : c.bound j ≤ c.bound k := by
  induction k, hjk using Nat.le_induction with
  | base => exact le_refl _
  | succ k _ ih => exact (ih (by omega)).trans (h.mono k (by omega))

theorem bound_le (h : c.Rising limit) {k : Nat} (hk : k ≤ c.length) : c.bound k ≤ limit :=
  (h.le_of_le hk (le_refl _)).trans h.last

theorem bound_lt (h : c.Rising limit) {k : Nat} (hk : k ≤ c.length) : c.bound k < offsetBound :=
  offsetEntry_lt (h.readable k hk)

theorem extent_eq (h : c.Rising limit) (word : c.stop < wordSize) {i : Nat} (hi : i < c.length) :
    c.extent i = .ok (c.bound i, c.bound (i + 1)) := by
  unfold stop at word
  have at' {k : Nat} (hk : k ≤ c.length) : c.offsetAt (c.offset + k) = .ok (c.bound k) := by
    rw [offsetAt, show offsetEntry (c.bytesOf .offsets) (c.offset + k) = _ from h.readable k hk]
    rfl
  rw [extent, Word.add_eq_ok (by omega), ok_bind, at' (by omega), ok_bind, Word.add_eq_ok (by omega), ok_bind,
    Nat.add_assoc, at' hi, ok_bind]
  rfl

end Rising

/-! ## Runs stored anew -/

/-- The offsets buffer with these entries. -/
def offsetBuffer (entries : List Nat) : Buffer := (entries.flatMap fun (n : Nat) => Primitive.int32.encode n).toArray

theorem size_offsetBuffer (entries : List Nat) : (offsetBuffer entries).size = offsetWidth * entries.length := by
  simp [offsetBuffer, List.length_flatMap, Primitive.width, offsetWidth, Nat.mul_comm]

/-- Of pieces of one width, one after another, each starts as many widths in as there are before it. -/
theorem take_drop_flatMap {α : Type} {write : α → Bytes} {width : Nat} (fixed : ∀ a, (write a).length = width)
    (l : List α) {k : Nat} (hk : k < l.length) : ((l.flatMap write).drop (width * k)).take width = write l[k] := by
  induction l generalizing k with
  | nil => simp at hk
  | cons a l ih =>
    rw [List.flatMap_cons]
    cases k with
    | zero => simp [← fixed a]
    | succ k =>
      rw [List.drop_append, List.drop_eq_nil_of_le (by rw [fixed]; exact Nat.le_mul_of_pos_right _ (by omega)),
        fixed, Nat.mul_succ, Nat.add_sub_cancel, List.nil_append, ih (by simpa using hk), List.getElem_cons_succ]

theorem offsetEntry_offsetBuffer {entries : List Nat} {k : Nat} (hk : k < entries.length)
    (small : entries[k] < offsetBound) (word : offsetWidth * entries.length < wordSize) :
    offsetEntry (offsetBuffer entries) k = .ok entries[k] := by
  have inside : k * offsetWidth + offsetWidth ≤ offsetWidth * entries.length := by
    rw [Nat.mul_comm offsetWidth, ← Nat.succ_mul]
    exact Nat.mul_le_mul_right _ hk
  have held : Primitive.int32.Holds (entries[k] : Nat) := by
    have : Primitive.int32.range = 2 * offsetBound := rfl
    simp only [Primitive.Holds, Primitive.isSigned, if_true, this]
    omega
  have fixed (n : Nat) : (Primitive.int32.encode n).length = offsetWidth := Primitive.length_encode ..
  have value : Primitive.int32.decode ((offsetBuffer entries).extract (k * offsetWidth)
      (k * offsetWidth + offsetWidth)).toList = (entries[k] : Nat) := by
    rw [Buffer.toList_extract_add, offsetBuffer, Nat.mul_comm,
      take_drop_flatMap fixed entries hk, Primitive.decode_encode _ held]
  rw [offsetEntry, Word.mul_eq_ok (by omega), ok_bind, Word.add_eq_ok (by omega), ok_bind,
    if_pos (by rw [size_offsetBuffer]; exact inside)]
  simp only [value]
  rw [if_pos (by omega)]
  simp

theorem storeOffsets_eq {offsets : Buffer} {first : Nat} (entries : List Nat) {stored : Buffer} {position : Nat}
    (read : ∀ k (hk : k < entries.length), offsetEntry offsets (position + k) = .ok (first + entries[k]))
    (small : ∀ n ∈ entries, n < offsetBound) :
    storeOffsets offsets first stored position entries.length = .ok (stored ++ offsetBuffer entries) := by
  induction entries generalizing stored position with
  | nil => simp [storeOffsets, offsetBuffer]
  | cons n entries ih =>
    have head : offsetEntry offsets position = .ok (first + n) := read 0 (by simp)
    rw [List.length_cons, storeOffsets, head, ok_bind, Word.sub_eq_ok (by omega), ok_bind, Nat.add_sub_cancel_left,
      appendOffset, if_pos (small n (by simp)), ok_bind,
      ih (fun k hk => by
        have := read (k + 1) (by simpa using hk)
        rwa [show position + (k + 1) = position + 1 + k by omega] at this)
        (fun m hm => small m (by simp [hm]))]
    congr 1
    apply Array.toList_inj.1
    simp [offsetBuffer]

end Column

end ColumnStream
