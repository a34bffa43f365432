/-
Writing a whole stream: the schema at the start, then batches, then the end marker and a flush. A
writer gives its sink up once it has finished, unless it is to leave it open, and a writer that is
dropped unfinished tries to finish first.
-/
import ColumnStream.Batch.Encode
import ColumnStream.Message

namespace ColumnStream

/-- The sink stays here after the writer has given it up, so that what became of it can be seen;
`holdsSink` tells whether the writer still uses it. -/
structure Writer (σ : Type) where
  schema : Schema
  leaveOpen : Bool
  sink : Sink σ
  holdsSink : Bool := true
  finished : Bool := false
  batchesWritten : Nat := 0

namespace Writer

variable {σ : Type} [Device σ]

/-- A writer whose schema is in the sink already; a failure comes with the sink it left. -/
def start (schema : Schema) (sink : Sink σ) (leaveOpen : Bool := false) :
    Except (Failure × Sink σ) (Writer σ) :=
  match schema.encode with
  | .error e => .error (e, sink)
  | .ok metadata =>
    match sink.writeMessage ⟨metadata, #[]⟩ with
    | (.error e, sink) => .error (e, sink)
    | (.ok _, sink) => .ok { schema, leaveOpen, sink }

def writeBatch (w : Writer σ) (b : Batch) : Result Unit × Writer σ :=
  if w.finished then (fail .writerClosed, w)
  else if b.schema ≠ w.schema then (fail .schemaMismatch, w)
  else if w.holdsSink then
    match b.encode with
    | .error e => (.error e, w)
    | .ok (metadata, body) =>
      match w.sink.writeMessage ⟨metadata, body⟩ with
      | (.error e, sink) => (.error e, { w with sink })
      | (.ok _, sink) => (.ok (), { w with sink, batchesWritten := w.batchesWritten + 1 })
  else (fail .writerClosed, w)

/-- Writes the end marker and flushes, once. -/
def finish (w : Writer σ) : Result Unit × Writer σ :=
  if w.finished then (.ok (), w)
  else if w.holdsSink then
    match w.sink.writeEnd with
    | (.error e, sink) => (.error e, { w with sink })
    | (.ok _, sink) =>
      match sink.flush with
      | (.error e, sink) => (.error e, { w with sink })
      | (.ok (), sink) => (.ok (), { w with sink, finished := true, holdsSink := w.leaveOpen })
  else (fail .writerClosed, w)

/-- The sink as it is left when the writer is dropped. -/
def drop (w : Writer σ) : Sink σ := w.finish.2.sink

/-- Finishes and hands the sink back. If that fails, the writer is dropped; the failure comes with
the sink it left. -/
def intoSink (w : Writer σ) : Except (Failure × Sink σ) (Sink σ) :=
  let ended : Result Unit × Writer σ :=
    if w.finished then (.ok (), w) else { w with leaveOpen := true }.finish
  match ended with
  | (.error e, w') => .error (e, w'.drop)
  | (.ok (), w') =>
    if w'.holdsSink then .ok w'.sink else .error (.error .writerClosed, w'.drop)

/-- The sink, while the writer holds it. -/
def sink? (w : Writer σ) : Option (Sink σ) := if w.holdsSink then some w.sink else none

/-- Changes the sink, while the writer holds it. -/
def modifySink (w : Writer σ) (change : Sink σ → Sink σ) : Option (Writer σ) :=
  if w.holdsSink then some { w with sink := change w.sink } else none

end Writer

end ColumnStream
