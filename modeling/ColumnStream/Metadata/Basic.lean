/-
What the metadata of a message says: it carries either a schema or the header of a batch, and it
declares the length of the body. The header of a batch lists a node for every column and a region
of the body for every buffer, in the order of one walk over the schema.
-/
import ColumnStream.Error

namespace ColumnStream

/-- Length and null count of one column. -/
structure Node where
  length : Nat
  nullCount : Nat
  deriving DecidableEq, Repr

/-- Where one buffer lies in the body. -/
structure Region where
  offset : Nat
  length : Nat
  deriving DecidableEq, Repr

structure BatchHeader where
  numRows : Nat
  nodes : List Node
  regions : List Region
  deriving DecidableEq, Repr

inductive MessageKind
  | schema | batch
  deriving DecidableEq, Repr

def MessageKind.tag : MessageKind → UInt8
  | schema => 0x01
  | batch => 0x02

inductive Header
  | schema (schema : Schema)
  | batch (header : BatchHeader)
  deriving DecidableEq, Repr

def Header.kind : Header → MessageKind
  | schema _ => .schema
  | batch _ => .batch

structure Metadata where
  header : Header
  bodyLength : Nat
  deriving DecidableEq, Repr

/-! ## Numbers of the format -/

def metadataVersion : UInt8 := 0x01

/-- Levels of nesting that a type may have; the type of a schema's field is the first. -/
def maxLevels : Nat := 64

namespace DataType

/-- The byte that stands for a type. -/
def tag : DataType → UInt8
  | boolean => 0x01
  | fixed .int8 => 0x02
  | fixed .int16 => 0x03
  | fixed .int32 => 0x04
  | fixed .int64 => 0x05
  | fixed .uint8 => 0x06
  | fixed .uint16 => 0x07
  | fixed .uint32 => 0x08
  | fixed .uint64 => 0x09
  | fixed .float32 => 0x0A
  | fixed .float64 => 0x0B
  | binary => 0x10
  | utf8 => 0x11
  | list _ => 0x20
  | struct _ => 0x21

def listTag : UInt8 := 0x20

def structTag : UInt8 := 0x21

/-- The types without children. -/
def flat : List DataType := [boolean] ++ Primitive.all.map fixed ++ [binary, utf8]

def ofTag? (b : UInt8) : Option DataType := flat.find? (·.tag == b)

theorem ofTag?_tag {t : DataType} (h : t.isNested = false) : ofTag? t.tag = some t := by
  match t with
  | boolean | binary | utf8 => rfl
  | fixed p => cases p <;> rfl
  | list _ | struct _ => simp [isNested] at h

end DataType

end ColumnStream
