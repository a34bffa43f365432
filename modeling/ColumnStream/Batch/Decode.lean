/-
A batch read back from its header and body. The walk over the schema takes a node for each column
and a region for each buffer off the two tables. A region has to lie inside the body and be long
enough for its node; an empty validity buffer stands for a column without nulls.
-/
import ColumnStream.Batch.Basic
import ColumnStream.Metadata.Decode

namespace ColumnStream

/-- What is left of a header's tables, and how many regions were taken. -/
structure Tables where
  nodes : List Node
  regions : List Region
  taken : Nat
  deriving DecidableEq, Repr

abbrev Walk := StateT Tables Result

namespace Walk

def node : Walk Node := fun tables =>
  match tables.nodes with
  | [] => fail (.corruptStream .nodesEnded)
  | n :: rest => .ok (n, { tables with nodes := rest })

def region : Walk (Nat × Region) := fun tables =>
  match tables.regions with
  | [] => fail (.corruptStream .buffersEnded)
  | r :: rest => .ok ((tables.taken, r), ⟨tables.nodes, rest, tables.taken + 1⟩)

/-- The buffer at a region, which is entry `index` of its table. -/
def cut (body : Buffer) (t : DataType) (n : Node) (role : Role) (index : Nat) (r : Region) :
    Result Buffer :=
  if wordSize ≤ r.offset + r.length ∨ body.size < r.offset + r.length then
    fail (.bufferOutOfBounds index r.offset r.length body.size)
  else if role = .validity ∧ r.length = 0 ∧ n.nullCount = 0 then body.slice r.offset r.length
  else
    let least := (t.leastLength? role n.length).getD (wordSize - 1)
    if r.length < least then fail (.invalidBufferLength index role least r.length)
    else body.slice r.offset r.length

def buffer (body : Buffer) (t : DataType) (n : Node) (role : Role) : Walk Buffer := do
  let (index, r) ← region
  cut body t n role index r

def buffers (body : Buffer) (t : DataType) (n : Node) : List Role → Walk (List Buffer)
  | [] => return []
  | role :: roles => do
    let first ← buffer body t n role
    return first :: (← buffers body t n roles)

/-- The next column, of type `t`, with the children that `children` reads. -/
def columnWith (body : Buffer) (t : DataType) (children : Walk (List Column)) : Walk Column := do
  let n ← node
  let own ← buffers body t n t.roles
  Column.assemble t n.length n.nullCount 0 own (← children)

mutual
/-- The next column of that type, with everything below it. -/
def column (body : Buffer) : DataType → Walk Column
  | .list ⟨name, t, nullable⟩ =>
    columnWith body (.list ⟨name, t, nullable⟩) do return [← column body t]
  | .struct members => columnWith body (.struct members) (columns body members)
  | t => columnWith body t (return [])

def columns (body : Buffer) : List Field → Walk (List Column)
  | [] => return []
  | ⟨_, t, _⟩ :: rest => do
    let first ← column body t
    return first :: (← columns body rest)
end

/-- Every type is read alike: its own buffers and then its children. -/
theorem column_eq (body : Buffer) (t : DataType) :
    column body t = columnWith body t (columns body t.children) := by
  cases t <;> simp [column, columns, DataType.children]

end Walk

namespace Batch

def ofHeader (schema : Schema) (header : BatchHeader) (body : Buffer) : Result Batch :=
  if header.nodes.length ≠ schema.nodeCount then
    fail (.nodeCountMismatch schema.nodeCount header.nodes.length)
  else if header.regions.length ≠ schema.bufferCount then
    fail (.bufferCountMismatch schema.bufferCount header.regions.length)
  else do
    let (columns, _) ← Walk.columns body schema.fields ⟨header.nodes, header.regions, 0⟩
    assembleWith schema columns header.numRows

/-- The batch that a message carries. The length the metadata declares is not compared. -/
def decode (schema : Schema) (metadata : Bytes) (body : Buffer) : Result Batch := do
  match (← Metadata.decode metadata).header with
  | .batch header => ofHeader schema header body
  | .schema _ => fail (.corruptStream .batchExpected)

end Batch

end ColumnStream
