/-
A report on the messages of an encoded stream: its schema and, for each message, what its metadata
says. Bodies are taken from the stream but not decoded. The report ends where the stream does, or
with the first failure.
-/
import ColumnStream.Message

namespace ColumnStream

namespace Report

inductive Entry
  | message (metadataLength : Nat) (metadata : Metadata)
  | ended (position : Nat)
  | failed (cause : Failure)
  deriving DecidableEq, Repr

/-- Entries for the messages still to be read. -/
def follow (s : Source Direct) : List Entry :=
  match _call : s.readMessage {} with
  | (.error e, _) => [.failed e]
  | (.ok none, s') => [.ended s'.taken]
  | (.ok (some m), s') =>
    match Metadata.decode m.metadata with
    | .error e => [.failed e]
    | .ok metadata => .message m.metadata.length metadata :: follow s'
termination_by s.remaining
decreasing_by exact Source.remaining_readMessage_lt _call

/-- Why there is no report. -/
inductive Refusal
  | reading (cause : Failure)
  | empty
  | decoding (cause : Failure)
  | notSchema
  deriving DecidableEq, Repr

end Report

/-- The first entry is the schema's own message. -/
structure Report where
  schema : Schema
  entries : List Report.Entry
  deriving DecidableEq, Repr

def Report.ofBuffer (b : Buffer) : Except Report.Refusal Report :=
  match (Source.ofBuffer b).readMessage {} with
  | (.error e, _) => .error (.reading e)
  | (.ok none, _) => .error .empty
  | (.ok (some m), s) =>
    match Metadata.decode m.metadata with
    | .error e => .error (.decoding e)
    | .ok metadata =>
      match metadata.header with
      | .batch _ => .error .notSchema
      | .schema schema => .ok ⟨schema, .message m.metadata.length metadata :: follow s⟩

end ColumnStream
