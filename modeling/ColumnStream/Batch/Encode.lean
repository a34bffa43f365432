/-
A batch as a message: the header in the metadata, and a body of all its buffers. Every column is
brought to offset zero on the way, so that a slice brings along only the bytes it covers. Buffers
follow one another in the order of the walk, each zero filled to the alignment.
-/
import ColumnStream.Batch.Basic
import ColumnStream.Metadata.Encode

namespace ColumnStream

/-- The nodes and buffers of some columns, in the order of the walk. -/
structure Flattened where
  nodes : List Node
  buffers : List Buffer
  deriving DecidableEq, Repr

namespace Flattened

def empty : Flattened := ⟨[], []⟩

instance : Append Flattened where
  append a b := ⟨a.nodes ++ b.nodes, a.buffers ++ b.buffers⟩

end Flattened

namespace Column

/-- The validity buffer as it is stored: none without nulls. -/
def storedValidity (c : Column) : Result Buffer :=
  match c.validity? with
  | some validity =>
    if 0 < c.nullCount then Bitmap.packed validity c.offset c.length else .ok #[]
  | none => .ok #[]

/-- The offsets from `position` on, `count` of them, counted from `first` and added to `stored`. -/
def storeOffsets (offsets : Buffer) (first : Nat) (stored : Buffer) :
    (position count : Nat) → Result Buffer
  | _, 0 => .ok stored
  | position, count + 1 => do
    let entry ← Word.sub (← offsetEntry offsets position) first
    storeOffsets offsets first (← appendOffset stored entry) (position + 1) count

/-- The offsets buffer as it is stored, and the start and the length of what it covers. -/
def rebasedOffsets (c : Column) : Result (Buffer × Nat × Nat) :=
  if c.length = 0 then .ok (#[], 0, 0)
  else do
    let offsets := c.bytesOf .offsets
    let first ← offsetEntry offsets c.offset
    let last ← offsetEntry offsets (← Word.add c.offset c.length)
    let stored ← storeOffsets offsets first #[] c.offset (c.length + 1)
    return (stored, first, ← Word.sub last first)

def node (c : Column) : Node := ⟨c.length, c.nullCount⟩

mutual
/-- A column of that type and everything below it. -/
def flattenAs : DataType → Column → Result Flattened
  | .boolean, c => do
    let values ← Bitmap.packed (c.bytesOf .values) c.offset c.length
    return ⟨[c.node], [← c.storedValidity, values]⟩
  | .fixed p, c => do
    let start ← Word.mul c.offset p.width
    let stop ← Word.mul (← Word.add c.offset c.length) p.width
    return ⟨[c.node], [← c.storedValidity, ← (c.bytesOf .values).range start stop]⟩
  | .binary, c | .utf8, c => do
    let (offsets, start, count) ← c.rebasedOffsets
    return ⟨[c.node], [← c.storedValidity, offsets, ← (c.bytesOf .values).slice start count]⟩
  | .list ⟨_, t, _⟩, c => do
    let (offsets, start, count) ← c.rebasedOffsets
    let own : Flattened := ⟨[c.node], [← c.storedValidity, offsets]⟩
    match c.children.head? with
    | some child => return own ++ (← flattenAs t (← child.slice start count))
    | none => return own
  | .struct members, c => do
    let own : Flattened := ⟨[c.node], [← c.storedValidity]⟩
    return own ++ (← flattenMembers members c.children c.offset c.length)

/-- The children of a struct, each cut to the struct's own elements. -/
def flattenMembers : List Field → List Column → (start count : Nat) → Result Flattened
  | ⟨_, t, _⟩ :: members, child :: children, start, count => do
    let first ← flattenAs t (← child.slice start count)
    return first ++ (← flattenMembers members children start count)
  | _, _, _, _ => .ok .empty
end

def flatten (c : Column) : Result Flattened := flattenAs c.type c

end Column

namespace Batch

def flattenAll : List Column → Result Flattened
  | [] => .ok .empty
  | c :: columns => do
    let first ← c.flatten
    return first ++ (← flattenAll columns)

/-! ## The body -/

/-- Where the buffers lie if the first of them starts at `start`. -/
def regionsFrom (start : Nat) : List Buffer → List Region
  | [] => []
  | buffer :: buffers => ⟨start, buffer.size⟩ :: regionsFrom (start + padded buffer.size) buffers

def bodyOf (buffers : List Buffer) : Buffer := buffers.foldl (fun body b => body ++ b.pad) #[]

theorem bodyOf_append (before after : List Buffer) :
    bodyOf (before ++ after) = bodyOf before ++ bodyOf after := by
  have onto (buffers : List Buffer) (start : Buffer) :
      buffers.foldl (fun body b => body ++ b.pad) start = start ++ bodyOf buffers := by
    induction buffers generalizing start with
    | nil => simp [bodyOf]
    | cons b rest ih =>
      rw [bodyOf, List.foldl_cons, List.foldl_cons, ih, ih (#[] ++ b.pad), Array.empty_append,
        Array.append_assoc]
  rw [bodyOf, List.foldl_append, onto]
  rfl

/-- The header and the body of the message that carries the batch. -/
def layOut (b : Batch) : Result (BatchHeader × Buffer) := do
  let flat ← flattenAll b.columns
  return (⟨b.numRows, flat.nodes, regionsFrom 0 flat.buffers⟩, bodyOf flat.buffers)

/-- The metadata block and the body of the message that carries the batch. -/
def encode (b : Batch) : Result (Bytes × Buffer) := do
  let (header, body) ← b.layOut
  return (← Metadata.encode ⟨.batch header, body.size⟩, body)

end Batch

end ColumnStream
