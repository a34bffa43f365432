/-
Batches: columns of equal length that obey a schema. Each column has its field's type, as many rows
as the batch, and no nulls unless its field admits them.
-/
import ColumnStream.Column.Equal

namespace ColumnStream

structure Batch where
  schema : Schema
  numRows : Nat
  columns : List Column

namespace Batch

def checkColumn (rows : Nat) (column : Column) (field : Field) : Result Unit :=
  if column.type ≠ field.type then
    fail (.invalidBatch (.columnType field.name column.type field.type))
  else if column.length ≠ rows then
    fail (.invalidBatch (.rowCount field.name column.length rows))
  else if field.nullable = false ∧ 0 < column.nullCount then
    fail (.invalidBatch (.nulls field.name column.nullCount))
  else .ok ()

def checkColumns (rows : Nat) : List Column → List Field → Result Unit
  | column :: columns, field :: fields => do
    checkColumn rows column field
    checkColumns rows columns fields
  | _, _ => .ok ()

/-- The batch of these columns, with its number of rows given. -/
def assembleWith (schema : Schema) (columns : List Column) (rows : Nat) : Result Batch :=
  if columns.length ≠ schema.fields.length then
    fail (.invalidBatch (.columnCount schema.fields.length columns.length))
  else do
    checkColumns rows columns schema.fields
    return ⟨schema, rows, columns⟩

/-- The batch of these columns, as long as the first of them; without columns it has no rows. -/
def assemble (schema : Schema) (columns : List Column) : Result Batch :=
  assembleWith schema columns ((columns.head?.map (·.length)).getD 0)

def columnNamed? (b : Batch) (name : String) : Option Column :=
  (b.schema.indexOf? name).bind (b.columns[·]?)

/-- `count` rows from `start` on. -/
def slice (b : Batch) (start count : Nat) : Result Batch := do
  let stop ← Word.add start count
  if stop ≤ b.numRows then
    return ⟨b.schema, count, ← b.columns.mapM (·.slice start count)⟩
  else misuse (.rows start count b.numRows)

def equalColumns : List Column → List Column → Result Bool
  | [], [] => .ok true
  | a :: as, b :: bs => do if ← a.equal b then equalColumns as bs else return false
  | _, _ => .ok false

def equal (a b : Batch) : Result Bool :=
  if a.schema = b.schema ∧ a.numRows = b.numRows then equalColumns a.columns b.columns
  else .ok false

end Batch

end ColumnStream
