/-
Byte strings and the numbers that govern them: the machine word, which bounds every length, count
and offset, and the eight-byte alignment of everything a stream stores. Numbers are written least
significant byte first.
-/
namespace ColumnStream

abbrev Bytes := List UInt8

/-- One past the largest length, count or offset. -/
def wordSize : Nat := 0x10000000000000000

/-- A number that is a length, unless it passes the word. -/
def fitting? (n : Nat) : Option Nat := if n < wordSize then some n else none

theorem fitting?_eq_some {n m : Nat} : fitting? n = some m ↔ n < wordSize ∧ n = m := by simp [fitting?]

/-! ## Alignment -/

def alignment : Nat := 8

/-- Zero bytes missing from `n` bytes to the next multiple of the alignment. -/
def padding (n : Nat) : Nat := (alignment - n % alignment) % alignment

def padded (n : Nat) : Nat := n + padding n

/-- Bytes that hold `bits` bits. -/
def bytesFor (bits : Nat) : Nat := bits / 8 + if bits % 8 = 0 then 0 else 1

namespace Bytes

def zeros (n : Nat) : Bytes := List.replicate n 0

/-! ## Little-endian numbers -/

/-- `n` in `width` bytes; what does not fit is dropped. -/
def ofNat : (width n : Nat) → Bytes
  | 0, _ => []
  | width + 1, n => UInt8.ofNat n :: ofNat width (n / 256)

def toNat : Bytes → Nat
  | [] => 0
  | b :: rest => b.toNat + 256 * toNat rest

/-- How many numbers `width` bytes can tell apart. -/
def card : (width : Nat) → Nat
  | 0 => 1
  | width + 1 => 256 * card width

/-- The text a byte string spells, if it is UTF-8. -/
def text? (bs : Bytes) : Option String := String.fromUTF8? ⟨bs.toArray⟩

def ofText (s : String) : Bytes := s.toUTF8.toList

/-! ## Laws -/

@[simp] theorem length_ofNat (width n : Nat) : (ofNat width n).length = width := by
  induction width generalizing n with
  | zero => rfl
  | succ w ih => simp [ofNat, ih]

theorem card_pos (width : Nat) : 0 < card width := by
  induction width with
  | zero => decide
  | succ w ih => exact Nat.mul_pos (by decide) ih

theorem toNat_ofNat (width n : Nat) : toNat (ofNat width n) = n % card width := by
  induction width generalizing n with
  | zero => simp [ofNat, toNat, card, Nat.mod_one]
  | succ w ih =>
    have h : (UInt8.ofNat n).toNat = n % 256 := by simp
    simp only [ofNat, toNat, card, ih, h]
    rw [Nat.mod_mul]

theorem toNat_lt (bs : Bytes) : toNat bs < card bs.length := by
  induction bs with
  | nil => simp [toNat, card]
  | cons b rest ih =>
    have hb : b.toNat < 256 := b.toNat_lt
    simp only [toNat, List.length_cons, card]
    omega

theorem ofNat_toNat (bs : Bytes) : ofNat bs.length (toNat bs) = bs := by
  induction bs with
  | nil => rfl
  | cons b rest ih =>
    have hb : b.toNat < 256 := b.toNat_lt
    have hd : (b.toNat + 256 * toNat rest) / 256 = toNat rest := by omega
    simp only [List.length_cons, toNat, ofNat, hd, ih, List.cons.injEq, and_true]
    apply UInt8.toNat_inj.mp
    simp only [UInt8.toNat_ofNat', Nat.reducePow]
    omega

end Bytes

theorem le_padded (n : Nat) : n ≤ padded n := Nat.le_add_right _ _

theorem alignment_dvd_padded (n : Nat) : alignment ∣ padded n := by
  unfold padded padding alignment
  omega

end ColumnStream
