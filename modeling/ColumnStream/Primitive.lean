/-
The fixed-width kinds of values. A value is an integer: a signed kind is stored in two's
complement, and a floating-point kind is carried as its bit pattern, so that every payload of a
NaN survives.
-/
import ColumnStream.Bytes

namespace ColumnStream

inductive Primitive
  | int8 | int16 | int32 | int64
  | uint8 | uint16 | uint32 | uint64
  | float32 | float64
  deriving DecidableEq, Repr

namespace Primitive

def all : List Primitive :=
  [int8, int16, int32, int64, uint8, uint16, uint32, uint64, float32, float64]

/-- Bytes of one value. -/
def width : Primitive → Nat
  | int8 | uint8 => 1
  | int16 | uint16 => 2
  | int32 | uint32 | float32 => 4
  | int64 | uint64 | float64 => 8

def isSigned : Primitive → Bool
  | int8 | int16 | int32 | int64 => true
  | _ => false

def isFloat : Primitive → Bool
  | float32 | float64 => true
  | _ => false

def name : Primitive → String
  | int8 => "Int8" | int16 => "Int16" | int32 => "Int32" | int64 => "Int64"
  | uint8 => "UInt8" | uint16 => "UInt16" | uint32 => "UInt32" | uint64 => "UInt64"
  | float32 => "Float32" | float64 => "Float64"

/-- Number of distinct values. -/
def range (p : Primitive) : Nat := Bytes.card p.width

def encode (p : Primitive) (value : Int) : Bytes :=
  Bytes.ofNat p.width (value % p.range).toNat

def decode (p : Primitive) (bs : Bytes) : Int :=
  if p.isSigned then (Bytes.toNat bs : Int).bmod p.range else Bytes.toNat bs

/-! ## Laws -/

/-- The values a kind can hold. -/
def Holds (p : Primitive) (value : Int) : Prop :=
  if p.isSigned then -(p.range : Int) ≤ 2 * value ∧ 2 * value < p.range
  else 0 ≤ value ∧ value < p.range

instance (p : Primitive) (value : Int) : Decidable (p.Holds value) := by
  unfold Holds; infer_instance

@[simp] theorem length_encode (p : Primitive) (value : Int) : (p.encode value).length = p.width := by
  simp [encode]

theorem toNat_encode (p : Primitive) (value : Int) :
    (Bytes.toNat (p.encode value) : Int) = value % p.range := by
  have pos : (0 : Int) < p.range := Int.natCast_pos.mpr (Bytes.card_pos p.width)
  have nonneg := Int.emod_nonneg value (Int.ne_of_gt pos)
  have small := Int.emod_lt_of_pos value pos
  have fits : (value % p.range).toNat < Bytes.card p.width := by
    show (value % p.range).toNat < p.range
    omega
  rw [encode, Bytes.toNat_ofNat, Nat.mod_eq_of_lt fits]
  omega

theorem decode_encode (p : Primitive) {value : Int} (held : p.Holds value) :
    p.decode (p.encode value) = value := by
  unfold decode
  rw [toNat_encode]
  unfold Holds at held
  split at held
  · rename_i signed
    rw [if_pos signed, Int.emod_bmod]
    exact Int.bmod_eq_of_le_mul_two (by omega) (by omega)
  · rename_i unsigned
    rw [if_neg unsigned]
    exact Int.emod_eq_of_lt held.1 held.2

end Primitive

end ColumnStream
