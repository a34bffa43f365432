/-
What a column holds: a kind of value, or a list or struct of further fields. A schema is the list
of a batch's fields; names need not be unique.
-/
import ColumnStream.Primitive

namespace ColumnStream

structure FieldOf (α : Type) where
  name : String
  type : α
  nullable : Bool
  deriving DecidableEq, Repr

/-- Booleans are packed as bits and have no byte width. -/
inductive DataType
  | boolean
  | fixed (kind : Primitive)
  | binary
  | utf8
  | list (item : FieldOf DataType)
  | struct (members : List (FieldOf DataType))
  deriving Repr

abbrev Field := FieldOf DataType

namespace DataType

/-! ## Equality -/

mutual
def same : DataType → DataType → Bool
  | boolean, boolean | binary, binary | utf8, utf8 => true
  | fixed p, fixed q => p == q
  | list ⟨m, t, b⟩, list ⟨n, u, c⟩ => m == n && b == c && same t u
  | struct fs, struct gs => sameAll fs gs
  | _, _ => false

def sameAll : List Field → List Field → Bool
  | [], [] => true
  | ⟨m, t, b⟩ :: fs, ⟨n, u, c⟩ :: gs => m == n && b == c && same t u && sameAll fs gs
  | _, _ => false
end

mutual
theorem same_iff : ∀ t u : DataType, same t u = true ↔ t = u
  | boolean, u | binary, u | utf8, u => by cases u <;> simp [same]
  | fixed p, u => by cases u <;> simp [same]
  | list ⟨m, t, b⟩, u => by
    cases u with
    | list f =>
      obtain ⟨n, u, c⟩ := f
      simp [same, same_iff t u, and_assoc, and_left_comm, and_comm]
    | _ => simp [same]
  | struct fs, u => by
    cases u with
    | struct gs => simp [same, sameAll_iff fs gs]
    | _ => simp [same]

theorem sameAll_iff : ∀ fs gs : List Field, sameAll fs gs = true ↔ fs = gs
  | [], gs => by cases gs <;> simp [sameAll]
  | ⟨m, t, b⟩ :: fs, [] => by simp [sameAll]
  | ⟨m, t, b⟩ :: fs, ⟨n, u, c⟩ :: gs => by
    simp [sameAll, same_iff t u, sameAll_iff fs gs, and_assoc, and_left_comm, and_comm]
end

instance : DecidableEq DataType := fun t u =>
  decidable_of_iff (same t u = true) (same_iff t u)

/-! ## Shape -/

/-- Bytes of one value, for the fixed-width kinds. -/
def byteWidth? : DataType → Option Nat
  | fixed p => some p.width
  | _ => none

def isNested : DataType → Bool
  | list _ | struct _ => true
  | _ => false

/-- One child for a list, one per member for a struct, in the order they are stored. -/
def children : DataType → List Field
  | list item => [item]
  | struct members => members
  | _ => []

end DataType

structure Schema where
  fields : List Field
  deriving DecidableEq, Repr

namespace Schema

/-- Position of the first field of that name. -/
def indexOf? (schema : Schema) (name : String) : Option Nat :=
  schema.fields.findIdx? (·.name == name)

end Schema

end ColumnStream
