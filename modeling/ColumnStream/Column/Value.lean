/-
The logical content of a column: the value of each element, free of offsets, padding and whatever
lies under a null.
-/
import ColumnStream.Column.Check

namespace ColumnStream

/-- Text is given by its UTF-8 bytes, a number as its kind reads it. -/
inductive Value
  | null
  | bool (b : Bool)
  | number (n : Int)
  | bytes (b : Buffer)
  | list (items : List Value)
  | struct (members : List Value)

namespace Column

def orNull {α : Type} (make : α → Value) : Option α → Value
  | none => .null
  | some a => make a

/-- The results of `read` at the numbers below `count`, in order. -/
def each {α : Type} (count : Nat) (read : Nat → Result α) : Result (List α) :=
  (List.range count).mapM read

mutual
/-- The value of element `i` of a column of that type. -/
def valueOf : DataType → Column → Nat → Result Value
  | .boolean, c, i => orNull .bool <$> c.boolAt i
  | .fixed p, c, i => orNull .number <$> c.numberAt p i
  | .binary, c, i | .utf8, c, i => orNull .bytes <$> c.bytesAt i
  | .list ⟨_, t, _⟩, c, i => do
    match ← c.rangeAt i, c.children.head? with
    | some (start, stop), some child =>
      let items ← child.slice start (stop - start)
      return .list (← each items.length (valueOf t items))
    | _, _ => return .null
  | .struct members, c, i => do
    if ← c.isValid i then
      return .struct (← memberValues members c.children (← Word.add c.offset i))
    else return .null

/-- The values at `position` of the children, one for each member. -/
def memberValues : List Field → List Column → Nat → Result (List Value)
  | ⟨_, t, _⟩ :: members, child :: children, position => do
    let value ← valueOf t (← child.slice position 1) 0
    return value :: (← memberValues members children position)
  | _, _, _ => return []
end

def value (c : Column) (i : Nat) : Result Value := valueOf c.type c i

def values (c : Column) : Result (List Value) := each c.length c.value

end Column

end ColumnStream
