/-
Which buffers a column owns, in which order, and how long each has to be. A column's own buffers
come first; each child brings its own block right after, in field order, so that one walk of the
type gives the order of every buffer and of every node of a batch.
-/
import ColumnStream.DataType.Basic

namespace ColumnStream

inductive Role
  | validity | offsets | values
  deriving DecidableEq, Repr

namespace Role

def name : Role → String
  | validity => "validity"
  | offsets => "offsets"
  | values => "values"

end Role

/-- Bytes of one entry of an offsets buffer. -/
def offsetWidth : Nat := 4

/-- One past the largest offset. -/
def offsetBound : Nat := 0x80000000

structure Requirement where
  role : Role
  length : Nat
  deriving DecidableEq, Repr

namespace DataType

def roles : DataType → List Role
  | binary | utf8 => [.validity, .offsets, .values]
  | list _ => [.validity, .offsets]
  | struct _ => [.validity]
  | boolean | fixed _ => [.validity, .values]

/-- The least length of a buffer for `count` elements, unless it passes the word. The values of a
variable-length type depend on its offsets, and no elements need no offsets. -/
def leastLength? (t : DataType) (role : Role) (count : Nat) : Option Nat :=
  match role with
  | .validity => some (bytesFor count)
  | .offsets => if count = 0 then some 0 else fitting? (offsetWidth * (count + 1))
  | .values =>
    match t with
    | boolean => some (bytesFor count)
    | fixed p => fitting? (count * p.width)
    | _ => some 0

def requirements? (t : DataType) (count : Nat) : Option (List Requirement) :=
  t.roles.mapM fun role => (t.leastLength? role count).map (⟨role, ·⟩)

/-! ## Counts over a type and everything below it -/

mutual
def nodeCount : DataType → Nat
  | list ⟨_, t, _⟩ => 1 + nodeCount t
  | struct members => 1 + nodeCounts members
  | _ => 1

def nodeCounts : List Field → Nat
  | [] => 0
  | ⟨_, t, _⟩ :: rest => nodeCount t + nodeCounts rest
end

mutual
def bufferCount : DataType → Nat
  | list ⟨_, t, _⟩ => 2 + bufferCount t
  | struct members => 1 + bufferCounts members
  | binary | utf8 => 3
  | boolean | fixed _ => 2

def bufferCounts : List Field → Nat
  | [] => 0
  | ⟨_, t, _⟩ :: rest => bufferCount t + bufferCounts rest
end

theorem bufferCount_eq (t : DataType) :
    t.bufferCount = t.roles.length + bufferCounts t.children := by
  cases t <;> simp [bufferCount, bufferCounts, roles, children]

theorem nodeCount_eq (t : DataType) : t.nodeCount = 1 + nodeCounts t.children := by
  cases t <;> simp [nodeCount, nodeCounts, children]

end DataType

namespace Schema

def nodeCount (schema : Schema) : Nat := DataType.nodeCounts schema.fields

def bufferCount (schema : Schema) : Nat := DataType.bufferCounts schema.fields

end Schema

end ColumnStream
