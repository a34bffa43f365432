/-
Arithmetic under its contract: a sum or product has to stay inside the machine word, a difference
above zero. Outside them the result is a fault.
-/
import ColumnStream.Error

namespace ColumnStream.Word

def add (a b : Nat) : Result Nat := if a + b < wordSize then .ok (a + b) else misuse .overflow

def mul (a b : Nat) : Result Nat := if a * b < wordSize then .ok (a * b) else misuse .overflow

def sub (a b : Nat) : Result Nat := if b ≤ a then .ok (a - b) else misuse .overflow

/-! ## Inside the contracts -/

theorem add_eq_ok {a b : Nat} (h : a + b < wordSize) : add a b = .ok (a + b) := if_pos h

theorem mul_eq_ok {a b : Nat} (h : a * b < wordSize) : mul a b = .ok (a * b) := if_pos h

theorem sub_eq_ok {a b : Nat} (h : b ≤ a) : sub a b = .ok (a - b) := if_pos h

end ColumnStream.Word
