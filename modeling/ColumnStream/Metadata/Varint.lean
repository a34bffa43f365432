/-
Numbers of varying length: seven bits a byte, the lowest first, and the top bit set on every byte
but the last. A word needs at most ten bytes. Reading accepts any spelling of up to ten bytes and
drops the bits past the word; writing uses the shortest.
-/
import ColumnStream.Error

namespace ColumnStream.Varint

/-- Bytes that the largest word takes. -/
def maxBytes : Nat := 10

/-- `n` in as few bytes as it takes, and in no more than `more + 1`. -/
def digits : (more n : Nat) → Bytes
  | 0, n => [UInt8.ofNat n]
  | more + 1, n =>
    if n < 128 then [UInt8.ofNat n] else UInt8.ofNat (n % 128 + 128) :: digits more (n / 128)

def encode (n : Nat) : Result Bytes :=
  if n < wordSize then .ok (digits (maxBytes - 1) n) else fail .outOfBounds

/-- A number of at most `bytes` bytes, and what follows it. -/
def number : (bytes : Nat) → Bytes → Except ParseProblem (Nat × Bytes)
  | 0, _ => .error .tooLarge
  | _ + 1, [] => .error (.missing 1)
  | bytes + 1, b :: rest =>
    if b.toNat < 128 then .ok (b.toNat, rest)
    else do
      let (high, rest) ← number bytes rest
      return (b.toNat % 128 + 128 * high, rest)

def decode (input : Bytes) : Except ParseProblem (Nat × Bytes) := do
  let (n, rest) ← number maxBytes input
  return (n % wordSize, rest)

/-! ## Reading what was written -/

/-- How many numbers `bytes` bytes can spell. -/
def card : (bytes : Nat) → Nat
  | 0 => 1
  | bytes + 1 => 128 * card bytes

theorem number_digits (more n : Nat) (h : n < card (more + 1)) (rest : Bytes) :
    number (more + 1) (digits more n ++ rest) = .ok (n, rest) := by
  induction more generalizing n with
  | zero =>
    have hn : n < 128 := h
    have hb : (UInt8.ofNat n).toNat = n := by simp; omega
    simp [digits, number, hb, hn]
  | succ k ih =>
    unfold digits
    split
    · rename_i hn
      have hb : (UInt8.ofNat n).toNat = n := by simp; omega
      simp [number, hb, hn]
    · have hb : (UInt8.ofNat (n % 128 + 128)).toNat = n % 128 + 128 := by simp; omega
      have hq : n / 128 < card (k + 1) := Nat.div_lt_of_lt_mul h
      have hlow : ¬ n % 128 + 128 < 128 := by omega
      simp only [List.cons_append, number, hb, hlow, if_false, ih _ hq, bind, Except.bind, pure,
        Except.pure, Except.ok.injEq, Prod.mk.injEq, and_true]
      omega

theorem decode_encode {n : Nat} {bytes : Bytes} (h : encode n = .ok bytes) (rest : Bytes) :
    decode (bytes ++ rest) = .ok (n, rest) := by
  unfold encode at h
  split at h
  · rename_i hn
    have hw : wordSize ≤ card maxBytes := by decide
    cases h
    have := number_digits (maxBytes - 1) n (Nat.lt_of_lt_of_le hn hw) rest
    simp only [decode, show maxBytes - 1 + 1 = maxBytes from rfl] at this ⊢
    simp only [this, bind, Except.bind, pure, Except.pure, Nat.mod_eq_of_lt hn]
  · cases h

end ColumnStream.Varint
