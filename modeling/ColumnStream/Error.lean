/-
Why an operation can fail. An error is a cause found in the data, the stream or the device, with
its one wording. A fault is a call outside an operation's contract: a position that does not exist,
an accessor of another type, arithmetic past the word.
-/
import ColumnStream.DataType.Describe
import ColumnStream.DataType.Layout

namespace ColumnStream

/-! ## Metadata that cannot be parsed -/

inductive ParseProblem
  | endOfInput
  | tooLarge
  | missing (count : Nat)
  deriving DecidableEq, Repr

namespace ParseProblem

def kind : ParseProblem → String
  | endOfInput => "Eof"
  | tooLarge => "TooLarge"
  | missing count => s!"Size({count})"

/-- The wording once a metadata block is complete. -/
def inBlock : ParseProblem → String
  | missing count => "metadata truncated, needed " ++ (missing count).kind
  | problem => s!"metadata truncated or invalid ({problem.kind})"

/-- The wording while a message is being framed. -/
def inFrame : ParseProblem → String
  | missing count => "Parse Incomplete: " ++ (missing count).kind
  | problem => "Parse Error: " ++ problem.kind

end ParseProblem

/-! ## Texts of bytes -/

/-- Two upper-case hexadecimal digits. -/
def upperHex (b : UInt8) : String :=
  let digit (n : Nat) : Char := (Nat.digitChar n).toUpper
  String.ofList [digit (b.toNat / 16), digit (b.toNat % 16)]

def tagText (b : UInt8) : String := "0x" ++ upperHex b

def byteList (bs : Bytes) : String := "[" ++ ", ".intercalate (bs.map upperHex) ++ "]"

/-! ## Causes -/

inductive SchemaProblem
  | unreadable (problem : ParseProblem)
  | tooDeep (levels : Nat)
  | unknownTag (tag : UInt8)
  | noFields
  | fieldsRequired
  | nameNotUtf8
  | nullableFlag (flag : UInt8)
  deriving DecidableEq, Repr

def SchemaProblem.message : SchemaProblem → String
  | unreadable problem => problem.inBlock
  | tooDeep levels => s!"types nest deeper than {levels} levels"
  | unknownTag tag => "unknown type tag " ++ tagText tag
  | noFields => "struct type without fields"
  | fieldsRequired => "struct types need at least one field"
  | nameNotUtf8 => "field name is not valid UTF-8"
  | nullableFlag flag => "invalid nullable flag " ++ tagText flag

/-- The two sections of a message. -/
inductive Section
  | metadata | body
  deriving DecidableEq, Repr

def Section.name : Section → String
  | metadata => "metadata"
  | body => "message body"

inductive StreamProblem
  | unreadable (problem : ParseProblem)
  | version (version : UInt8)
  | messageType (tag : UInt8)
  | schemaExpected
  | batchExpected
  | nodesEnded
  | buffersEnded
  | marker (found : Bytes)
  | metadataTooLong (length limit : Nat)
  | bodyTooLong (length limit : Nat)
  | endsInMarker (found : Nat)
  | endsInSection (part : Section) (expected found : Nat)
  | prelude (problem : ParseProblem)
  | noSchema
  | startsWithBatch
  | lateSchema
  deriving DecidableEq, Repr

def StreamProblem.message : StreamProblem → String
  | unreadable problem => problem.inBlock
  | version v => "unsupported metadata version " ++ tagText v
  | messageType tag => "unknown message type " ++ tagText tag
  | schemaExpected => "expected a schema message"
  | batchExpected => "expected a record batch message"
  | nodesEnded => "field node table ended early"
  | buffersEnded => "buffer table ended early"
  | marker found => "expected continuation marker, found " ++ byteList found
  | metadataTooLong length limit => s!"metadata length {length} exceeds the limit of {limit}"
  | bodyTooLong length limit => s!"body length {length} exceeds the limit of {limit}"
  | endsInMarker found => s!"stream ends inside a message prefix after {found} bytes"
  | endsInSection part expected found =>
    s!"stream ends inside the {part.name}: expected {expected} bytes, found {found}"
  | prelude problem => "unreadable metadata prelude: " ++ problem.inFrame
  | noSchema => "stream ended before its schema message"
  | startsWithBatch => "stream does not start with a schema message"
  | lateSchema => "schema message in the middle of the stream"

inductive OffsetProblem
  | absent (position : Nat)
  | negative (value : Int) (position : Nat)
  | decreasing (current position previous : Nat)
  | past (last limit : Nat)
  deriving DecidableEq, Repr

def OffsetProblem.message : OffsetProblem → String
  | absent position => s!"offset {position} lies past the offsets buffer"
  | negative value position => s!"offset {value} at position {position} is negative"
  | decreasing current position previous =>
    s!"offset {current} at position {position} is below {previous}"
  | past last limit => s!"last offset {last} exceeds {limit}"

inductive ColumnProblem
  | bufferCount (type : DataType) (expected actual : Nat)
  | childCount (type : DataType) (expected actual : Nat)
  | childType (name : String) (actual expected : DataType)
  | nullsPastLength (nulls length : Nat)
  | extent (offset length : Nat)
  | nullsWithoutValidity (nulls : Nat)
  | bufferOverflow (role : Role) (count : Nat)
  | bufferShort (role : Role) (actual required : Nat)
  | textNotUtf8 (index : Nat)
  | memberShort (actual required : Nat)
  deriving DecidableEq, Repr

def ColumnProblem.message : ColumnProblem → String
  | bufferCount type expected actual => s!"{type.describe} takes {expected} buffers, got {actual}"
  | childCount type expected actual => s!"{type.describe} takes {expected} children, got {actual}"
  | childType name actual expected =>
    s!"child {Text.quoted name} has type {actual.describe}, expected {expected.describe}"
  | nullsPastLength nulls length => s!"null count {nulls} exceeds length {length}"
  | extent offset length => s!"offset {offset} + length {length} overflows"
  | nullsWithoutValidity nulls => s!"{nulls} nulls declared without a validity buffer"
  | bufferOverflow role count => s!"{role.name} buffer for {count} elements overflows"
  | bufferShort role actual required => s!"{role.name} buffer is {actual} bytes, {required} required"
  | textNotUtf8 index => s!"utf8 value {index} is not valid UTF-8"
  | memberShort actual required => s!"struct child has length {actual}, {required} required"

inductive BatchProblem
  | columnCount (fields columns : Nat)
  | columnType (name : String) (actual expected : DataType)
  | rowCount (name : String) (actual expected : Nat)
  | nulls (name : String) (count : Nat)
  deriving DecidableEq, Repr

def BatchProblem.message : BatchProblem → String
  | columnCount fields columns => s!"schema has {fields} fields, got {columns} columns"
  | columnType name actual expected =>
    s!"column {Text.quoted name} is {actual.describe}, field type is {expected.describe}"
  | rowCount name actual expected =>
    s!"column {Text.quoted name} has {actual} rows, expected {expected}"
  | nulls name count => s!"non-nullable column {Text.quoted name} contains {count} nulls"

/-- How a device refuses a call. -/
inductive DeviceError
  | brokenPipe | writeZero | interrupted | other
  deriving DecidableEq, Repr

inductive Error
  | malformedSchema (cause : SchemaProblem)
  | schemaMismatch
  | corruptStream (cause : StreamProblem)
  | invalidBufferLength (index : Nat) (role : Role) (expected actual : Nat)
  | bufferCountMismatch (expected actual : Nat)
  | nodeCountMismatch (expected actual : Nat)
  | bufferOutOfBounds (index offset length bodyLength : Nat)
  | nullCountMismatch (declared counted : Nat)
  | invalidOffsets (cause : OffsetProblem)
  | invalidColumn (cause : ColumnProblem)
  | invalidBatch (cause : BatchProblem)
  | writerClosed
  | outOfBounds
  | device (cause : DeviceError)
  deriving DecidableEq, Repr

def Error.message : Error → String
  | malformedSchema cause => "Malformed Schema: " ++ cause.message
  | schemaMismatch => "Schema Mismatch: batch schema differs from the stream schema"
  | corruptStream cause => "Corrupt Stream: " ++ cause.message
  | invalidBufferLength index role expected actual =>
    s!"Invalid Buffer Length: buffer {index} ({role.name}) is {actual} bytes, expected at least "
      ++ toString expected
  | bufferCountMismatch expected actual =>
    s!"Buffer Count Mismatch: schema requires {expected} buffers, metadata lists {actual}"
  | nodeCountMismatch expected actual =>
    s!"Node Count Mismatch: schema requires {expected} field nodes, metadata lists {actual}"
  | bufferOutOfBounds index offset length bodyLength =>
    s!"Buffer Out Of Bounds: buffer {index} spans {offset}..{offset}+{length} but the body is "
      ++ s!"{bodyLength} bytes"
  | nullCountMismatch declared counted =>
    s!"Null Count Mismatch: declared {declared}, validity bitmap has {counted}"
  | invalidOffsets cause => "Invalid Offsets: " ++ cause.message
  | invalidColumn cause => "Invalid Array: " ++ cause.message
  | invalidBatch cause => "Invalid Record Batch: " ++ cause.message
  | writerClosed => "Stream Writer Closed"
  | outOfBounds => "Numeric Bounds Error"
  | device _ => "IO Error"

/-! ## Calls outside a contract -/

inductive Fault
  | index (position length : Nat)
  | slice (offset count length : Nat)
  | rows (offset count total : Nat)
  | valueType
  | notBoolean
  | notVariableLength
  | notUtf8
  | notList
  | outOfRange
  | overflow
  | allocation
  deriving DecidableEq, Repr

/-- The wording of a fault that an operation checks for itself. -/
def Fault.message? : Fault → Option String
  | index position length => some s!"index {position} out of bounds for length {length}"
  | slice offset count length =>
    some s!"slice {offset}+{count} out of bounds for length {length}"
  | rows offset count total => some s!"slice {offset}+{count} out of bounds for {total} rows"
  | valueType => some "value type does not match array type"
  | notBoolean => some "not a boolean array"
  | notVariableLength => some "not a variable-length array"
  | notUtf8 => some "not a utf8 array"
  | notList => some "not a list array"
  | outOfRange | overflow | allocation => none

inductive Failure
  | error (cause : Error)
  | fault (cause : Fault)
  deriving DecidableEq, Repr

def Failure.message : Failure → String
  | .error cause => cause.message
  | .fault cause => cause.message?.getD "call outside its contract"

abbrev Result := Except Failure

def fail {α : Type} (cause : Error) : Result α := .error (.error cause)

def misuse {α : Type} (cause : Fault) : Result α := .error (.fault cause)

end ColumnStream
