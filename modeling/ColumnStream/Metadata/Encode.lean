/-
Writing metadata: version, kind of message, body length, then the schema or the batch header. A
field is its name behind a length, a byte for its nullability, and its type; a list type is
followed by its item and a struct type by the number of its members and the members.
-/
import ColumnStream.Metadata.Basic
import ColumnStream.Metadata.Varint

namespace ColumnStream

namespace Metadata

/-! ## Schemas -/

def encodeField (type : DataType → Result Bytes) (f : Field) : Result Bytes := do
  let name := Bytes.ofText f.name
  return (← Varint.encode name.length) ++ name ++ [if f.nullable then 1 else 0] ++ (← type f.type)

/-- A count and then each of the items. -/
def encodeAll {α : Type} (item : α → Result Bytes) (items : List α) : Result Bytes := do
  return (← Varint.encode items.length) ++ (← items.mapM item).flatten

/-- A type of at most `levels` levels. -/
def encodeType : (levels : Nat) → DataType → Result Bytes
  | 0, _ => fail (.malformedSchema (.tooDeep maxLevels))
  | levels + 1, t =>
    match t with
    | .list item => do return t.tag :: (← encodeField (encodeType levels) item)
    | .struct members =>
      if members.isEmpty then fail (.malformedSchema .fieldsRequired)
      else do return t.tag :: (← encodeAll (encodeField (encodeType levels)) members)
    | _ => .ok [t.tag]

def encodeSchema (schema : Schema) : Result Bytes :=
  encodeAll (encodeField (encodeType maxLevels)) schema.fields

/-! ## Batch headers -/

def encodePair (a b : Nat) : Result Bytes := do return (← Varint.encode a) ++ (← Varint.encode b)

def encodeBatchHeader (header : BatchHeader) : Result Bytes := do
  return (← Varint.encode header.numRows)
    ++ (← encodeAll (fun (n : Node) => encodePair n.length n.nullCount) header.nodes)
    ++ (← encodeAll (fun (r : Region) => encodePair r.offset r.length) header.regions)

def encodeHeader : Header → Result Bytes
  | .schema schema => encodeSchema schema
  | .batch header => encodeBatchHeader header

/-- The metadata block, not yet padded. -/
def encode (m : Metadata) : Result Bytes := do
  return [metadataVersion, m.header.kind.tag] ++ (← Varint.encode m.bodyLength)
    ++ (← encodeHeader m.header)

end Metadata

/-- The metadata of a schema message, which has no body. -/
def Schema.encode (schema : Schema) : Result Bytes := Metadata.encode ⟨.schema schema, 0⟩

end ColumnStream
