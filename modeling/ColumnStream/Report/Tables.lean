/-
A report as two tables of text, one for the fields of the schema and one for the messages. A row is
the list of its cells; a row of one cell spans its table. Titles and field names are bold, exact
byte counts italic.
-/
import ColumnStream.Report.Basic
import ColumnStream.Report.Size

namespace ColumnStream

def bold (s : String) : String := "\x1b[1m" ++ s ++ "\x1b[0m"

def italic (s : String) : String := "\x1b[3m" ++ s ++ "\x1b[0m"

/-- A size for people with the exact count behind it. -/
def sizeCell (n : Nat) : String := Size.text n ++ " (" ++ italic (toString n) ++ ")"

namespace Report

def Refusal.message : Refusal → String
  | reading cause => "Error Reading Schema Message: " ++ cause.message
  | empty => "Error Reading Schema Message: stream is empty"
  | decoding cause => "Error Decoding Schema: " ++ cause.message
  | notSchema => "Error Decoding Schema: first message is not a schema"

/-- Kind, rows, nodes and buffers. -/
def headerCells : Header → String × String × Nat × Nat
  | .schema schema => ("Schema", "", schema.fields.length, 0)
  | .batch header =>
    ("Record Batch", toString header.numRows, header.nodes.length, header.regions.length)

def Entry.cells (index : Nat) : Entry → List String
  | message length metadata =>
    let (kind, rows, nodes, buffers) := headerCells metadata.header
    [toString index, kind, sizeCell length, sizeCell metadata.bodyLength, rows, toString nodes,
      toString buffers]
  | ended position => [italic s!"end of stream after {position} bytes"]
  | failed cause => [cause.message]

def fieldCells (f : Field) : List String := [bold f.name, f.type.caption, boolText f.nullable]

def schemaTable (r : Report) : List (List String) :=
  [[bold "Schema"], ["Field", "Type", "Nullable"]] ++ r.schema.fields.map fieldCells

def messageTable (r : Report) : List (List String) :=
  [[bold "Messages"], ["#", "Kind", "Metadata", "Body", "Rows", "Nodes", "Buffers"]]
    ++ r.entries.mapIdx fun index entry => entry.cells index

end Report

end ColumnStream
