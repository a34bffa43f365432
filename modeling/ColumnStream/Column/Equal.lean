/-
Equality of columns by content. Types, lengths and null counts are compared first, then element
after element up to the first difference.
-/
import ColumnStream.Column.Check

namespace ColumnStream.Column

/-- Whether `test` holds at `count` numbers from `i` on; it is not asked past the first failure. -/
def holdsFrom (test : Nat → Result Bool) : (i count : Nat) → Result Bool
  | _, 0 => .ok true
  | i, count + 1 => do if ← test i then holdsFrom test (i + 1) count else return false

/-- Equality of columns, given equality of the contents of two valid elements. -/
def equalBy (content : Column → Nat → Column → Nat → Result Bool) (a b : Column) : Result Bool :=
  if a.type = b.type ∧ a.length = b.length ∧ a.nullCount = b.nullCount then
    holdsFrom (fun i => do
      let valid ← a.isValid i
      if valid = (← b.isValid i) then if valid then content a i b i else return true
      else return false) 0 a.length
  else .ok false

mutual
/-- Whether element `i` of one column holds what element `j` of another of the same type holds. -/
def sameContent : DataType → Column → Nat → Column → Nat → Result Bool
  | .boolean, a, i, b, j => do return (← a.boolAt i) == (← b.boolAt j)
  | .fixed p, a, i, b, j => do return (← a.fixedBytes i p.width) == (← b.fixedBytes j p.width)
  | .binary, a, i, b, j | .utf8, a, i, b, j => do return (← a.bytesAt i) == (← b.bytesAt j)
  | .list ⟨_, t, _⟩, a, i, b, j => do
    match ← a.rangeAt i, ← b.rangeAt j, a.children.head?, b.children.head? with
    | some (start, stop), some (start', stop'), some child, some child' =>
      if stop - start = stop' - start' then
        equalBy (sameContent t) (← child.slice start (stop - start))
          (← child'.slice start' (stop' - start'))
      else return false
    | _, _, _, _ => return false
  | .struct members, a, i, b, j => do
    sameMembers members a.children b.children (← Word.add a.offset i) (← Word.add b.offset j)

/-- Whether the children agree, each at its struct's position. -/
def sameMembers : List Field → List Column → List Column → Nat → Nat → Result Bool
  | ⟨_, t, _⟩ :: members, child :: children, child' :: children', i, j => do
    if ← equalBy (sameContent t) (← child.slice i 1) (← child'.slice j 1) then
      sameMembers members children children' i j
    else return false
  | _, _, _, _, _ => .ok true
end

def equal (a b : Column) : Result Bool := equalBy (sameContent a.type) a b

end ColumnStream.Column
