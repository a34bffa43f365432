/-
Reading a whole stream: the schema at the start, then a batch with every call until the stream
ends. A message that cannot be used costs its own call only, since it has been read completely by
then; iteration stops at the first error.
-/
import ColumnStream.Batch.Decode
import ColumnStream.Message

namespace ColumnStream

structure Reader (σ : Type) where
  source : Source σ
  schema : Schema
  limits : Limits
  finished : Bool := false
  batchesRead : Nat := 0

namespace Reader

/-- The schema that the first message has to carry. -/
def schemaOf (first : Option Message) : Result Schema :=
  match first with
  | none => fail (.corruptStream .noSchema)
  | some m => do
    match (← Metadata.decode m.metadata).header with
    | .schema schema => return schema
    | .batch _ => fail (.corruptStream .startsWithBatch)

/-- The batch that a later message has to carry. -/
def batchOf (schema : Schema) (m : Message) : Result Batch := do
  match (← Metadata.decode m.metadata).header with
  | .batch header => Batch.ofHeader schema header m.body
  | .schema _ => fail (.corruptStream .lateSchema)

variable {σ : Type} [Device σ]

/-- A reader that has read the schema; a failure comes with the source it left. -/
def start (source : Source σ) (limits : Limits := {}) : Except (Failure × Source σ) (Reader σ) :=
  match source.readMessage limits with
  | (.error e, source) => .error (e, source)
  | (.ok first, source) =>
    match schemaOf first with
    | .error e => .error (e, source)
    | .ok schema => .ok { source, schema, limits }

/-- The next batch, or none once the stream has ended. -/
def readBatch (r : Reader σ) : Result (Option Batch) × Reader σ :=
  if r.finished then (.ok none, r)
  else
    match r.source.readMessage r.limits with
    | (.error e, source) => (.error e, { r with source })
    | (.ok none, source) => (.ok none, { r with source, finished := true })
    | (.ok (some m), source) =>
      match batchOf r.schema m with
      | .error e => (.error e, { r with source })
      | .ok b => (.ok (some b), { r with source, batchesRead := r.batchesRead + 1 })

/-- The next item of an iteration, which ends after the first error; a fault does not end it. -/
def next? (r : Reader σ) : Option (Result Batch) × Reader σ :=
  match r.readBatch with
  | (.error (.error e), r') => (some (fail e), { r' with finished := true })
  | (.error (.fault f), r') => (some (misuse f), r')
  | (.ok none, r') => (none, r')
  | (.ok (some b), r') => (some (.ok b), r')

end Reader

end ColumnStream
