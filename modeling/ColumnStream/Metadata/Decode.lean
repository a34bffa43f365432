/-
Reading metadata. Nothing read is trusted: counts and lengths are only followed as far as there are
bytes, and types only down to the deepest level. Bytes after the header are padding. The grammar is
written over the steps of reading, and parsing is what it comes to on bytes.
-/
import ColumnStream.Metadata.Basic
import ColumnStream.Metadata.Parser

namespace ColumnStream

namespace Metadata

def kindOf? (tag : UInt8) : Option MessageKind :=
  [MessageKind.schema, .batch].find? (·.tag == tag)

/-! ## What metadata is made of -/

namespace Grammar

open Parsing

variable {m : Type → Type} [Monad m] [Parsing m]

/-- A field whose type `type` reads. Its name and flag are judged once the type has been read. -/
def field (type : m DataType) : m Field := do
  let name ← bytes (← varint)
  let flag ← byte
  let t ← type
  match Bytes.text? name with
  | none => refuse (.malformedSchema .nameNotUtf8)
  | some name =>
    if flag = 0 then return ⟨name, t, false⟩
    else if flag = 1 then return ⟨name, t, true⟩
    else refuse (.malformedSchema (.nullableFlag flag))

/-- A type of at most `levels` levels. -/
def type : (levels : Nat) → m DataType
  | 0 => refuse (.malformedSchema (.tooDeep maxLevels))
  | levels + 1 => nested do
    let tag ← byte
    if tag = DataType.listTag then return .list (← field (type levels))
    else if tag = DataType.structTag then
      let count ← varint
      if count = 0 then refuse (.malformedSchema .noFields)
      else return .struct (← times count (field (type levels)))
    else
      match DataType.ofTag? tag with
      | some t => return t
      | none => refuse (.malformedSchema (.unknownTag tag))

def schema : m Schema := do return ⟨← counted (field (type maxLevels))⟩

def node : m Node := do return ⟨← varint, ← varint⟩

def region : m Region := do return ⟨← varint, ← varint⟩

def batchHeader : m BatchHeader := do
  let rows ← varint
  let nodes ← counted node
  let regions ← counted region
  return ⟨rows, nodes, regions⟩

/-- The kind of message and the declared length of its body. -/
def prelude : m (MessageKind × Nat) := do
  let version ← byte
  if version ≠ metadataVersion then refuse (.corruptStream (.version version))
  else
    let tag ← byte
    match kindOf? tag with
    | none => refuse (.corruptStream (.messageType tag))
    | some kind => return (kind, ← varint)

end Grammar

/-! ## Metadata blocks -/

def parseField (type : Parser DataType) : Parser Field := Grammar.field type

def parseType (levels : Nat) : Parser DataType := Grammar.type levels

def parseSchema : Parser Schema := Grammar.schema

def parseNode : Parser Node := Grammar.node

def parseRegion : Parser Region := Grammar.region

def parseBatchHeader : Parser BatchHeader := Grammar.batchHeader

def parsePrelude : Parser (MessageKind × Nat) := Grammar.prelude

open ColumnStream.Parser in
theorem parseType_succ (levels : Nat) : parseType (levels + 1) = (do
    let tag ← byte
    if tag = DataType.listTag then return .list (← parseField (parseType levels))
    else if tag = DataType.structTag then
      let count ← varint
      if count = 0 then refuse (.malformedSchema .noFields)
      else return .struct (← Parsing.times count (parseField (parseType levels)))
    else
      match DataType.ofTag? tag with
      | some t => return t
      | none => refuse (.malformedSchema (.unknownTag tag))) := rfl

open ColumnStream.Parser in
theorem parsePrelude_eq : parsePrelude = (do
    let version ← byte
    if version ≠ metadataVersion then refuse (.corruptStream (.version version))
    else
      let tag ← byte
      match kindOf? tag with
      | none => refuse (.corruptStream (.messageType tag))
      | some kind => return (kind, ← varint)) := rfl

def decode (input : Bytes) : Result Metadata := do
  let ((kind, bodyLength), rest) ← parsePrelude.run (.corruptStream <| .unreadable ·) input
  match kind with
  | .schema =>
    let (schema, _) ← parseSchema.run (.malformedSchema <| .unreadable ·) rest
    return ⟨.schema schema, bodyLength⟩
  | .batch =>
    let (header, _) ← parseBatchHeader.run (.corruptStream <| .unreadable ·) rest
    return ⟨.batch header, bodyLength⟩

end Metadata

/-- The schema that the metadata of a schema message carries. -/
def Schema.decode (input : Bytes) : Result Schema := do
  match (← Metadata.decode input).header with
  | .schema schema => return schema
  | .batch _ => fail (.corruptStream .schemaExpected)

end ColumnStream
