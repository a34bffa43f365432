/-
The reader for sources that are awaited: the schema at the start, then a batch with every call until
the stream ends. It reads the sections of a message as a blocking reader does, but whatever the
device refuses reaches the caller, and the next call reads on from there.
-/
import ColumnStream.Batch.Decode
import ColumnStream.Message
import ColumnStream.Transport.Awaiting

namespace ColumnStream

namespace Source

variable {σ : Type} [Device σ]

/-- A section, which is received with its padding. -/
def receiveSection (limits : Limits) (part : Section) (length : Nat) (s : Source σ) :
    Result Buffer × Source σ :=
  match limits.room length with
  | .error e => (.error e, s)
  | .ok size =>
    match s.receiveBytes size with
    | (.error e, s') => (.error e, s')
    | (.ok found, s') => (part.finish length size found, s')

/-- The next message, or none at the end of the stream. -/
def receiveMessage (limits : Limits) (s : Source σ) : Result (Option Message) × Source σ :=
  match s.receiveBytes markerLength with
  | (.error e, s₁) => (.error e, s₁)
  | (.ok marker, s₁) =>
    match limits.metadataLength marker with
    | .error e => (.error e, s₁)
    | .ok none => (.ok none, s₁)
    | .ok (some length) =>
      match s₁.receiveSection limits .metadata length with
      | (.error e, s₂) => (.error e, s₂)
      | (.ok metadata, s₂) =>
        match limits.bodyLength metadata.toList with
        | .error e => (.error e, s₂)
        | .ok bodyLength =>
          match s₂.receiveSection limits .body bodyLength with
          | (.error e, s₃) => (.error e, s₃)
          | (.ok body, s₃) => (.ok (some ⟨metadata.toList, body⟩), s₃)

end Source

structure AsyncReader (σ : Type) where
  source : Source σ
  schema : Schema
  limits : Limits
  finished : Bool := false

namespace AsyncReader

variable {σ : Type} [Device σ]

/-- A reader that has read the schema; a failure comes with the source it left. -/
def start (source : Source σ) (limits : Limits := {}) : Except (Failure × Source σ) (AsyncReader σ) :=
  match source.receiveMessage limits with
  | (.error e, source) => .error (e, source)
  | (.ok none, source) => .error (.error (.corruptStream .noSchema), source)
  | (.ok (some m), source) =>
    match Metadata.decode m.metadata with
    | .error e => .error (e, source)
    | .ok ⟨.schema schema, _⟩ => .ok { source, schema, limits }
    | .ok ⟨.batch _, _⟩ => .error (.error (.corruptStream .startsWithBatch), source)

/-- The next batch, or none once the stream has ended. -/
def readBatch (r : AsyncReader σ) : Result (Option Batch) × AsyncReader σ :=
  if r.finished then (.ok none, r)
  else
    match r.source.receiveMessage r.limits with
    | (.error e, source) => (.error e, { r with source })
    | (.ok none, source) => (.ok none, { r with source, finished := true })
    | (.ok (some m), source) =>
      match Metadata.decode m.metadata with
      | .error e => (.error e, { r with source })
      | .ok ⟨.schema _, _⟩ => (fail (.corruptStream .lateSchema), { r with source })
      | .ok ⟨.batch header, _⟩ =>
        match Batch.ofHeader r.schema header m.body with
        | .error e => (.error e, { r with source })
        | .ok b => (.ok (some b), { r with source })

end AsyncReader

end ColumnStream
