/-
Columns: a type, its buffers in role order, and one child per nested field. Element `i` of a column
is stored at position `offset + i`. The children of a struct are read with the struct's offset
added; the offsets of a list count from the child's own first element.
-/
import ColumnStream.Bitmap

namespace ColumnStream

structure Column where
  type : DataType
  length : Nat
  nullCount : Nat
  offset : Nat
  buffers : List Buffer
  children : List Column

namespace Column

mutual
/-- The column of a type without elements, all of whose buffers are empty. -/
def empty : DataType → Column
  | .list ⟨name, t, nullable⟩ => ⟨.list ⟨name, t, nullable⟩, 0, 0, 0, [#[], #[]], [empty t]⟩
  | .struct members => ⟨.struct members, 0, 0, 0, [#[]], emptyAll members⟩
  | t => ⟨t, 0, 0, 0, t.roles.map fun _ => #[], []⟩

def emptyAll : List Field → List Column
  | [] => []
  | ⟨_, t, _⟩ :: rest => empty t :: emptyAll rest
end

def isEmpty (c : Column) : Bool := c.length == 0

/-! ## Buffers -/

def buffer? (c : Column) (role : Role) : Option Buffer :=
  (c.type.roles.findIdx? (· == role)).bind (c.buffers[·]?)

/-- The bytes of a role, none if the type lacks it. -/
def bytesOf (c : Column) (role : Role) : Buffer := (c.buffer? role).getD #[]

/-- The validity bitmap, unless there is none because no element is null. -/
def validity? (c : Column) : Option Buffer := (c.buffer? .validity).filter (!·.isEmpty)

/-- Entry `position` of an offsets buffer. -/
def offsetEntry (offsets : Buffer) (position : Nat) : Result Nat := do
  let start ← Word.mul position offsetWidth
  let stop ← Word.add start offsetWidth
  if stop ≤ offsets.size then
    let value := Primitive.int32.decode (offsets.extract start stop).toList
    if 0 ≤ value then .ok value.toNat
    else fail (.invalidOffsets (.negative value position))
  else fail (.invalidOffsets (.absent position))

/-- The entries with one more at their end, if it is small enough for one. -/
def appendOffset (offsets : Buffer) (n : Nat) : Result Buffer :=
  if n < offsetBound then .ok (offsets ++ Primitive.int32.encode n) else fail .outOfBounds

/-- Entry `position` of the column's offsets, zero where there is none. -/
def offsetAt (c : Column) (position : Nat) : Result Nat :=
  match offsetEntry (c.bytesOf .offsets) position with
  | .error (.error _) => .ok 0
  | entry => entry

/-- Where element `i` of a list or of variable-length values starts and stops. -/
def extent (c : Column) (i : Nat) : Result (Nat × Nat) := do
  let position ← Word.add c.offset i
  let start ← c.offsetAt position
  let stop ← c.offsetAt (← Word.add position 1)
  return (start, stop)

/-! ## Elements -/

def isValid (c : Column) (i : Nat) : Result Bool :=
  if i < c.length then
    match c.validity? with
    | some validity => do Bitmap.get validity (← Word.add c.offset i)
    | none => .ok (c.nullCount == 0)
  else misuse (.index i c.length)

def isNull (c : Column) (i : Nat) : Result Bool := (!·) <$> c.isValid i

/-- What `read` finds at element `i`, unless the element is null. -/
def unlessNull {α : Type} (c : Column) (i : Nat) (read : Result α) : Result (Option α) := do
  if ← c.isValid i then some <$> read else return none

/-- The stored bytes of element `i`, for values `width` bytes wide. -/
def fixedBytes (c : Column) (i width : Nat) : Result Buffer := do
  let start ← Word.mul (← Word.add c.offset i) width
  (c.bytesOf .values).slice start width

def numberAt (c : Column) (p : Primitive) (i : Nat) : Result (Option Int) :=
  if c.type = .fixed p then c.unlessNull i do return p.decode (← c.fixedBytes i p.width).toList
  else misuse .valueType

def boolAt (c : Column) (i : Nat) : Result (Option Bool) :=
  if c.type = .boolean then
    c.unlessNull i do Bitmap.get (c.bytesOf .values) (← Word.add c.offset i)
  else misuse .notBoolean

/-- The stored bytes of element `i`, for values of variable length. -/
def variableBytes (c : Column) (i : Nat) : Result Buffer := do
  let (start, stop) ← c.extent i
  (c.bytesOf .values).range start stop

def bytesAt (c : Column) (i : Nat) : Result (Option Buffer) :=
  if c.type = .binary ∨ c.type = .utf8 then c.unlessNull i (c.variableBytes i)
  else misuse .notVariableLength

def textAt (c : Column) (i : Nat) : Result (Option String) :=
  if c.type = .utf8 then return (← c.bytesAt i).bind Buffer.text? else misuse .notUtf8

/-- Positions of the child that list element `i` covers, as start and stop. -/
def rangeAt (c : Column) (i : Nat) : Result (Option (Nat × Nat)) :=
  match c.type with
  | .list _ => c.unlessNull i (c.extent i)
  | _ => misuse .notList

/-! ## Slices -/

/-- `count` elements from `start` on. Only the offset moves, and the nulls are counted anew. -/
def slice (c : Column) (start count : Nat) : Result Column :=
  if start + count < wordSize ∧ start + count ≤ c.length then do
    let offset ← Word.add c.offset start
    let nulls ← match c.validity? with
      | some validity => Bitmap.countClear validity offset count
      | none => .ok 0
    return { c with length := count, nullCount := nulls, offset := offset }
  else misuse (.slice start count c.length)

end Column

end ColumnStream
