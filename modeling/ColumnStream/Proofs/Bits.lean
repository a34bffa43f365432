/-
What the bitmap operations do, bit by bit. `Bitmap.isSet` reads any position, with zeros past the end;
a window holds the bits of its range and nothing after them, a stored range holds at least those
bits, a count is the number of positions of its range that are set, however its scan divides them
into bits and bytes, and a builder's bitmap holds the bits appended to it.
-/
import ColumnStream.Bitmap
import ColumnStream.Proofs.Result
import Mathlib.Tactic

namespace ColumnStream

theorem bytesFor_eq (bits : Nat) : bytesFor bits = (bits + 7) / 8 := by
  unfold bytesFor
  split <;> omega

theorem bytesFor_mono {m n : Nat} (h : m ≤ n) : bytesFor m ≤ bytesFor n := by
  rw [bytesFor_eq, bytesFor_eq]
  omega

namespace Bitmap

/-- Bit `i`, clear past the end. -/
def isSet (data : Buffer) (i : Nat) : Bool := (byteAt data (i / 8)).toNat.testBit (i % 8)

theorem byteAt_of_lt {data : Buffer} {i : Nat} (h : i < data.size) : byteAt data i = data[i] := by
  simp [byteAt, h]

theorem byteAt_of_le {data : Buffer} {i : Nat} (h : data.size ≤ i) : byteAt data i = 0 := by
  simp [byteAt, h]

theorem get_isSet {data : Buffer} {i : Nat} (h : i < 8 * data.size) : get data i = .ok (isSet data i) := by
  have inside : i / 8 < data.size := by omega
  rw [get_eq_ok inside, isSet, byteAt_of_lt inside]

theorem testBit_uint8 (b : UInt8) {j : Nat} (h : 8 ≤ j) : b.toNat.testBit j = false := by
  apply Nat.testBit_lt_two_pow
  exact Nat.lt_of_lt_of_le b.toNat_lt (Nat.pow_le_pow_right (by decide) h)

/-! ## Windows -/

theorem testBit_straddling (data : Buffer) {shift i j : Nat} (hs : 0 < shift) (hs' : shift < 8) (hj : j < 8) :
    (straddling data shift i).toNat.testBit j = isSet data (8 * i + shift + j) := by
  have low : (UInt8.ofNat shift).toNat % 8 = shift := by simp; omega
  have high : (UInt8.ofNat (8 - shift)).toNat % 8 = 8 - shift := by simp; omega
  rw [straddling, UInt8.toNat_or, UInt8.toNat_shiftRight, UInt8.toNat_shiftLeft, low, high, Nat.testBit_or,
    Nat.testBit_shiftRight, Nat.testBit_mod_two_pow, Nat.testBit_shiftLeft]
  unfold isSet
  by_cases inside : shift + j < 8
  · rw [show (8 * i + shift + j) / 8 = i by omega, show (8 * i + shift + j) % 8 = shift + j by omega]
    simp [show ¬ 8 - shift ≤ j by omega]
  · rw [testBit_uint8 _ (Nat.le_of_not_lt inside), show (8 * i + shift + j) / 8 = i + 1 by omega,
      show (8 * i + shift + j) % 8 = j - (8 - shift) by omega]
    simp [hj, show 8 - shift ≤ j by omega]

theorem toNat_mask_sub_one (i : Nat) : (mask i - 1).toNat = 2 ^ (i % 8) - 1 := by
  have : ∀ k < 8, ((1 : UInt8) <<< UInt8.ofNat k - 1).toNat = 2 ^ k - 1 := by decide
  exact this (i % 8) (Nat.mod_lt _ (by decide))

/-- Trimming a bitmap of just the right size clears what comes after its last bit. -/
theorem isSet_trim {count : Nat} {data : Buffer} (size : data.size = bytesFor count) (i : Nat) :
    isSet (trim count data) i = (decide (i < count) && isSet data i) := by
  have past (b : Buffer) (hb : b.size = bytesFor count) (hi : ¬ i / 8 < bytesFor count) : isSet b i = false := by
    rw [isSet, byteAt_of_le (by omega)]
    simp
  by_cases inside : i / 8 < bytesFor count
  · unfold trim
    rw [bytesFor_eq] at size inside
    split
    · rename_i whole
      rw [decide_eq_true (by omega), Bool.true_and]
    · rename_i partly
      have bound : i / 8 < data.size := by omega
      unfold isSet
      rw [byteAt_of_lt (by simpa using bound), byteAt_of_lt bound, Array.getElem_modify]
      by_cases last : count / 8 = i / 8
      · rw [if_pos last, UInt8.toNat_and, toNat_mask_sub_one, Nat.testBit_and, Nat.testBit_two_pow_sub_one,
          Bool.and_comm]
        congr 1
        exact decide_eq_decide.2 ⟨fun _ => by omega, fun _ => by omega⟩
      · rw [if_neg last, decide_eq_true (by omega), Bool.true_and]
  · rw [past _ (by rw [size_trim, size]) inside, past _ size inside, Bool.and_false]

theorem isSet_extract {data : Buffer} {start size i : Nat} (h : i < 8 * size) (fits : start + size ≤ data.size) :
    isSet (data.extract start (start + size)) i = isSet data (8 * start + i) := by
  unfold isSet
  rw [show (8 * start + i) / 8 = start + i / 8 by omega, show (8 * start + i) % 8 = i % 8 by omega,
    byteAt_of_lt (by simp; omega), byteAt_of_lt (by omega), Array.getElem_extract]

theorem window_eq_ok {data : Buffer} {offset count : Nat} (fits : offset + count ≤ 8 * data.size) :
    ∃ w, window data offset count = .ok w ∧ w.size = bytesFor count ∧
      ∀ i, isSet w i = (decide (i < count) && isSet data (offset + i)) := by
  have size := bytesFor_eq count
  unfold window
  simp only
  split
  · rename_i aligned
    have inside : offset / 8 + bytesFor count ≤ data.size := by omega
    have length : (data.extract (offset / 8) (offset / 8 + bytesFor count)).size = bytesFor count := by
      simp; omega
    refine ⟨_, by rw [Buffer.slice_eq_ok inside]; rfl, by rw [size_trim, length], fun i => ?_⟩
    rw [isSet_trim length]
    by_cases hi : i < count
    · rw [isSet_extract (by omega) inside, show 8 * (offset / 8) + i = offset + i by omega]
    · simp [hi]
  · rename_i unaligned
    have inside : offset / 8 + bytesFor count ≤ data.size := by omega
    rw [if_pos (.inr inside)]
    refine ⟨_, rfl, by simp, fun i => ?_⟩
    rw [isSet_trim (by simp)]
    by_cases hi : i < count
    · rw [isSet, byteAt_of_lt (by simp; omega), Array.getElem_ofFn,
        testBit_straddling _ (by omega) (by omega) (by omega),
        show 8 * (offset / 8 + i / 8) + offset % 8 + i % 8 = offset + i by omega]
    · simp [hi]

theorem packed_eq_ok {data : Buffer} {offset count : Nat} (fits : offset + count ≤ 8 * data.size) :
    ∃ w, packed data offset count = .ok w ∧ w.size = bytesFor count ∧
      ∀ i < count, isSet w i = isSet data (offset + i) := by
  have size := bytesFor_eq count
  unfold packed
  split
  · rename_i aligned
    have inside : offset / 8 + bytesFor count ≤ data.size := by omega
    refine ⟨_, Buffer.slice_eq_ok inside, by simp; omega, fun i hi => ?_⟩
    rw [isSet_extract (by omega) inside, show 8 * (offset / 8) + i = offset + i by omega]
  · obtain ⟨w, ran, length, bits⟩ := window_eq_ok fits
    exact ⟨w, ran, length, fun i hi => by rw [bits, decide_eq_true hi, Bool.true_and]⟩

/-! ## Counts -/

/-- Set positions among `count` from `offset` on. -/
def setIn (data : Buffer) (offset count : Nat) : Nat :=
  (List.range count).countP fun i => isSet data (offset + i)

/-- Clear positions among `count` from `offset` on. -/
def clearIn (data : Buffer) (offset count : Nat) : Nat :=
  (List.range count).countP fun i => !isSet data (offset + i)

theorem clearIn_eq (data : Buffer) (offset count : Nat) :
    clearIn data offset count = count - setIn data offset count := by
  have := List.length_eq_countP_add_countP (fun i => isSet data (offset + i)) (l := List.range count)
  rw [List.length_range] at this
  simp only [clearIn, setIn]
  simp only [Bool.not_eq_true, Bool.decide_eq_false] at this
  omega

theorem setIn_le (data : Buffer) (offset count : Nat) : setIn data offset count ≤ count :=
  List.countP_le_length.trans_eq List.length_range

theorem setIn_add (data : Buffer) (offset m n : Nat) :
    setIn data offset (m + n) = setIn data offset m + setIn data (offset + m) n := by
  simp only [setIn, List.range_add, List.countP_append, List.countP_map, Function.comp_def, Nat.add_assoc]

/-- One bit more. -/
theorem setIn_succ (data : Buffer) (offset count : Nat) :
    setIn data offset (count + 1) = (isSet data offset).toNat + setIn data (offset + 1) count := by
  rw [Nat.add_comm, setIn_add]
  rfl

/-- One byte more. -/
theorem setIn_byte (data : Buffer) {offset : Nat} (aligned : offset % 8 = 0) (count : Nat) :
    setIn data offset (count + 8) = onesIn (byteAt data (offset / 8)) + setIn data (offset + 8) count := by
  rw [Nat.add_comm, setIn_add, setIn, onesIn]
  congr 1
  refine List.countP_congr fun i hi => ?_
  have := List.mem_range.1 hi
  rw [isSet, show (offset + i) / 8 = offset / 8 by omega, show (offset + i) % 8 = i by omega]

/-! ### The scan -/

theorem get_of_le {data : Buffer} {i : Nat} (h : 8 * data.size ≤ i) : get data i = misuse .outOfRange := by
  rw [get, bit?, Array.getElem?_eq_none (by omega)]
  rfl

/-- The count has come from `s` to `t`: it ends where it would have, and comes to the same number. -/
structure Tally.Follows (data : Buffer) (t s : Tally) : Prop where
  stop : t.position + t.left = s.position + s.left
  total : t.found + setIn data t.position t.left = s.found + setIn data s.position s.left

namespace Tally.Follows

variable {data : Buffer} {r s t : Tally}

theorem refl (s : Tally) : Follows data s s := ⟨rfl, rfl⟩

theorem trans (h : Follows data t s) (h' : Follows data s r) : Follows data t r :=
  ⟨h.stop.trans h'.stop, h.total.trans h'.total⟩

theorem bit (left position found : Nat) :
    Follows data ⟨position + 1, left, found + (isSet data position).toNat⟩ ⟨position, left + 1, found⟩ := by
  refine ⟨?_, ?_⟩
  · simp only
    omega
  · simp only [setIn_succ, Nat.add_assoc]

theorem byte {position : Nat} (aligned : position % 8 = 0) (left found : Nat) :
    Follows data ⟨position + 8, left, found + onesIn (byteAt data (position / 8))⟩ ⟨position, left + 8, found⟩ := by
  refine ⟨?_, ?_⟩
  · simp only
    omega
  · simp only [setIn_byte data aligned, Nat.add_assoc]

end Tally.Follows

/-- The count goes on from `s` to where it rests, unless it is to go past the end. -/
def Scans (data : Buffer) (s : Tally) (rests : Tally → Prop) (out : Result Tally) : Prop :=
  (out = misuse .outOfRange ∧ 8 * data.size < s.position + s.left) ∨ ∃ t, out = .ok t ∧ t.Follows data s ∧ rests t

theorem Scans.of_follows {data : Buffer} {s t : Tally} {rests : Tally → Prop} {out : Result Tally}
    (h : Scans data t rests out) (follows : t.Follows data s) : Scans data s rests out := by
  rcases h with ⟨ran, past⟩ | ⟨u, ran, further, done⟩
  · exact .inl ⟨ran, follows.stop ▸ past⟩
  · exact .inr ⟨u, ran, further.trans follows, done⟩

theorem scans_countBits (data : Buffer) (pauses : Nat → Bool) (left position found : Nat) :
    Scans data ⟨position, left, found⟩ (fun t => t.left = 0 ∨ pauses t.position = true)
      (countBits data pauses left position found) := by
  induction left generalizing position found with
  | zero => exact .inr ⟨_, rfl, .refl _, .inl rfl⟩
  | succ left ih =>
    rw [countBits]
    split
    · rename_i pause
      exact .inr ⟨_, rfl, .refl _, .inr pause⟩
    · by_cases inside : position < 8 * data.size
      · rw [get_isSet inside, ok_bind]
        exact (ih _ _).of_follows (.bit left position found)
      · rw [get_of_le (Nat.not_lt.1 inside)]
        exact .inl ⟨rfl, by simp only; omega⟩

/-- From the start of a byte, less than a byte is left over. -/
theorem scans_countBytes (data : Buffer) {left position : Nat} (aligned : left = 0 ∨ position % 8 = 0) (found : Nat) :
    Scans data ⟨position, left, found⟩ (fun t => t.left < 8) (countBytes data left position found) := by
  fun_induction countBytes data left position found with
  | case1 left position found b byte ih =>
    have start : position % 8 = 0 := by omega
    have here : byteAt data (position / 8) = b := by rw [byteAt, byte]; rfl
    exact (ih (.inr (by omega))).of_follows (here ▸ .byte start left found)
  | case2 left position found none =>
    have past := Array.getElem?_eq_none_iff.1 none
    exact .inl ⟨rfl, by simp only; omega⟩
  | case3 left position found short =>
    refine .inr ⟨_, rfl, .refl _, Nat.lt_of_not_le fun long => ?_⟩
    exact short (left - 8) (Nat.sub_add_cancel long).symm

/-- The three parts of the scan together count what is set in the range, or the range goes past the end. -/
theorem countSet_cases {data : Buffer} {offset count : Nat} (word : offset + count < wordSize)
    (step : offset + 8 < wordSize) :
    (countSet data offset count = misuse .outOfRange ∧ 8 * data.size < offset + count) ∨
      countSet data offset count = .ok (setIn data offset count) := by
  rw [countSet, Word.add_eq_ok word, ok_bind, Word.add_eq_ok step, ok_bind]
  rcases scans_countBits data (· % 8 == 0) count offset 0 with ⟨ran, past⟩ | ⟨lead, ran, first, ready⟩
  · exact .inl ⟨by rw [ran]; rfl, past⟩
  have aligned : lead.left = 0 ∨ lead.position % 8 = 0 := ready.imp_right beq_iff_eq.1
  rw [ran, ok_bind]
  rcases (scans_countBytes data aligned lead.found).of_follows first with ⟨ran, past⟩ | ⟨whole, ran, second, -⟩
  · exact .inl ⟨by rw [ran]; rfl, past⟩
  rw [ran, ok_bind]
  rcases (scans_countBits data (fun _ => false) whole.left whole.position whole.found).of_follows second with
    ⟨ran, past⟩ | ⟨tail, ran, third, done⟩
  · exact .inl ⟨by rw [ran]; rfl, past⟩
  have none : tail.left = 0 := done.resolve_right Bool.false_ne_true
  have total := third.total
  rw [none, Nat.zero_add] at total
  rw [ran, ok_bind, ← total]
  exact .inr rfl

theorem countSet_eq_ok {data : Buffer} {offset count : Nat} (word : offset + count < wordSize)
    (step : offset + 8 < wordSize) (fits : offset + count ≤ 8 * data.size) :
    countSet data offset count = .ok (setIn data offset count) :=
  (countSet_cases word step).resolve_left fun ⟨_, past⟩ => Nat.not_lt.2 fits past

/-- A count that was made counts the clear positions. -/
theorem countClear_ok {data : Buffer} {offset count n : Nat} (h : countClear data offset count = .ok n) :
    n = clearIn data offset count := by
  obtain ⟨ones, counted, h⟩ := bind_eq_ok.1 h
  obtain ⟨_, word, rest⟩ := bind_eq_ok.1 counted
  obtain ⟨_, step, -⟩ := bind_eq_ok.1 rest
  have counted' : ones = setIn data offset count := by
    rcases @countSet_cases data offset count (Word.add_ok word).2 (Word.add_ok step).2 with ⟨ran, -⟩ | ran
    · cases ran.symm.trans counted
    · exact Except.ok.inj (counted.symm.trans ran)
  unfold Word.sub at h
  split at h <;> cases h
  rw [clearIn_eq, counted']

theorem countClear_eq_ok {data : Buffer} {offset count : Nat} (word : offset + count < wordSize)
    (step : offset + 8 < wordSize) (fits : offset + count ≤ 8 * data.size) :
    countClear data offset count = .ok (clearIn data offset count) := by
  rw [countClear, countSet_eq_ok word step fits, ok_bind, Word.sub_eq_ok (setIn_le ..), clearIn_eq]

/-! ### Ranges -/

/-- A range inside the bitmap is counted as its bits are, and no position that the scan looks ahead to passes the
word. Brought to bit zero it takes just the bytes for its bits and is clear behind them; as it is stored it has the same
length and the same bits. -/
theorem range_bit_by_bit {data : Buffer} {offset count : Nat} (small : data.size < 2 ^ 60)
    (fits : offset + count ≤ 8 * data.size) :
    (∀ i < offset + count, get data i = .ok (isSet data i)) ∧
    (countSet data offset count = .ok (setIn data offset count) ∧
      countClear data offset count = .ok (count - setIn data offset count) ∧ offset + count + 8 < wordSize) ∧
    (∃ w, window data offset count = .ok w ∧ w.size = bytesFor count ∧
      (∀ i < count, get w i = get data (offset + i)) ∧ ∀ i, count ≤ i → i < 8 * w.size → get w i = .ok false) ∧
    ∃ p, packed data offset count = .ok p ∧ p.size = bytesFor count ∧ ∀ i < count, get p i = get data (offset + i) := by
  have word : offset + count + 8 < wordSize := by unfold wordSize; omega
  have room : count ≤ 8 * bytesFor count := by rw [bytesFor_eq]; omega
  refine ⟨fun i hi => get_isSet (by omega), ⟨countSet_eq_ok (by omega) (by omega) fits, ?_, word⟩, ?_, ?_⟩
  · rw [countClear_eq_ok (by omega) (by omega) fits, clearIn_eq]
  · obtain ⟨w, ran, size, bits⟩ := window_eq_ok fits
    refine ⟨w, ran, size, fun i hi => ?_, fun i behind inside => ?_⟩
    · rw [get_isSet (by omega), get_isSet (by omega), bits, decide_eq_true hi, Bool.true_and]
    · rw [get_isSet inside, bits, decide_eq_false (Nat.not_lt.2 behind), Bool.false_and]
  · obtain ⟨p, ran, size, bits⟩ := packed_eq_ok fits
    exact ⟨p, ran, size, fun i hi => by rw [get_isSet (by omega), get_isSet (by omega), bits i hi]⟩

/-- Fourteen bits of three bytes, from within the first byte into the last. -/
theorem range_bit_by_bit_across : countSet #[0xB4, 0x01, 0xFF] 3 14 = .ok 5 ∧
    countClear #[0xB4, 0x01, 0xFF] 3 14 = .ok 9 ∧
    ∃ w, window #[0xB4, 0x01, 0xFF] 3 14 = .ok w ∧ w.size = 2 ∧ get w 13 = .ok true ∧ get w 14 = .ok false := by
  obtain ⟨-, ⟨set, clear, -⟩, ⟨w, ran, size, bits, behind⟩, -⟩ :=
    @range_bit_by_bit #[0xB4, 0x01, 0xFF] 3 14 (by decide) (by decide)
  have five : setIn #[0xB4, 0x01, 0xFF] 3 14 = 5 := by decide
  rw [five] at set clear
  exact ⟨set, clear, w, ran, size, bits 13 (by decide), behind 14 (by decide) (by rw [size]; decide)⟩

/-! ## Building -/

theorem isSet_push_zero (data : Buffer) (i : Nat) : isSet (data.push 0) i = isSet data i := by
  have byte (k : Nat) : byteAt (data.push 0) k = byteAt data k := by
    unfold byteAt
    rw [Array.getElem?_push]
    split
    · rename_i last
      simp [last]
    · rfl
  rw [isSet, byte, isSet]

theorem testBit_mask (n : Nat) {j : Nat} (hj : j < 8) : (mask n).toNat.testBit j = decide (j = n % 8) := by
  have : ∀ k < 8, ∀ j < 8, ((1 : UInt8) <<< UInt8.ofNat k).toNat.testBit j = decide (j = k) := by decide
  exact this (n % 8) (Nat.mod_lt _ (by decide)) j hj

theorem isSet_put {data : Buffer} {n : Nat} (inside : n / 8 < data.size) (i : Nat) :
    isSet (put data n) i = (decide (i = n) || isSet data i) := by
  by_cases hi : i / 8 < data.size
  · unfold isSet put
    rw [byteAt_of_lt (by simpa using hi), byteAt_of_lt hi, Array.getElem_modify]
    by_cases same : n / 8 = i / 8
    · rw [if_pos same, UInt8.toNat_or, Nat.testBit_or, testBit_mask n (by omega), Bool.or_comm]
      congr 1
      exact decide_eq_decide.2 ⟨fun _ => by omega, fun _ => by omega⟩
    · rw [if_neg same, decide_eq_false (by rintro rfl; exact same rfl), Bool.false_or]
  · rw [isSet, isSet, byteAt_of_le (by simpa using hi), byteAt_of_le (by omega),
      decide_eq_false (by rintro rfl; exact hi inside), Bool.false_or]

namespace Builder

/-- The bitmap holds these bits and nothing after them, and it is known how many are clear. -/
structure Holds (b : Builder) (bits : List Bool) : Prop where
  length : b.length = bits.length
  size : b.bytes.size = bytesFor bits.length
  clear : b.clear = bits.count false
  isSet : ∀ i, isSet b.bytes i = bits[i]?.getD false

theorem holds_empty : ({} : Builder).Holds [] := ⟨rfl, rfl, rfl, fun i => by simp [Bitmap.isSet, byteAt]⟩

/-- With a byte opened, if this bit is an eighth one, there is room for it, and it is clear. -/
theorem Holds.opened {b : Builder} {bits : List Bool} (h : b.Holds bits) {opened : Buffer}
    (eq : opened = if b.length % 8 = 0 then b.bytes.push 0 else b.bytes) :
    opened.size = bytesFor (bits.length + 1) ∧ ∀ i, Bitmap.isSet opened i = bits[i]?.getD false := by
  have length := h.length
  have size := h.size
  rw [bytesFor_eq] at size ⊢
  subst eq
  split
  · exact ⟨by rw [Array.size_push]; omega, fun i => (isSet_push_zero _ i).trans (h.isSet i)⟩
  · exact ⟨by omega, h.isSet⟩

theorem Holds.append {b : Builder} {bits : List Bool} (h : b.Holds bits) (bit : Bool) :
    (b.append bit).Holds (bits ++ [bit]) := by
  obtain ⟨opened, eq⟩ : ∃ opened, opened = if b.length % 8 = 0 then b.bytes.push 0 else b.bytes := ⟨_, rfl⟩
  obtain ⟨size, before⟩ := h.opened eq
  have room : b.length / 8 < opened.size := by
    rw [size, bytesFor_eq, h.length]
    omega
  have after (i : Nat) : (bits ++ [bit])[i]?.getD false = (decide (i = b.length) && bit || bits[i]?.getD false) := by
    rw [h.length]
    rcases Nat.lt_trichotomy i bits.length with lt | rfl | gt
    · rw [List.getElem?_append_left lt, decide_eq_false (by omega)]
      rfl
    · simp
    · rw [List.getElem?_eq_none (by simp; omega), List.getElem?_eq_none (by omega), decide_eq_false (by omega)]
      rfl
  have appended : b.append bit = if bit then ⟨put opened b.length, b.length + 1, b.clear⟩
      else ⟨opened, b.length + 1, b.clear + 1⟩ := by
    rw [eq]
    rfl
  rw [appended]
  cases bit with
  | true =>
    refine ⟨by simp [h.length], by simp [size], by simp [h.clear], fun i => ?_⟩
    rw [if_pos rfl, isSet_put room, before, after, Bool.and_true]
  | false =>
    refine ⟨by simp [h.length], by simp [size], by simp [h.clear], fun i => ?_⟩
    rw [if_neg Bool.false_ne_true, before, after, Bool.and_false, Bool.false_or]

end Builder
end Bitmap

end ColumnStream
