/-
The writer for devices that are awaited. It keeps its sink until it is taken apart, and dropping it
writes nothing.
-/
import ColumnStream.Batch.Encode
import ColumnStream.Message
import ColumnStream.Transport.Awaiting

namespace ColumnStream

namespace Sink

variable {σ : Type} [Device σ]

/-- Sends one part after another, up to the first failure. -/
def sendParts (s : Sink σ) : List Buffer → Result Unit × Sink σ
  | [] => (.ok (), s)
  | part :: parts =>
    match s.sendAll part with
    | (.error e, s') => (.error e, s')
    | (.ok (), s') => sendParts s' parts

/-- Sends a message, and tells how many bytes it takes in a stream. -/
def sendMessage (s : Sink σ) (m : Message) : Result Nat × Sink σ :=
  match m.parts with
  | .error e => (.error e, s)
  | .ok parts =>
    match s.sendParts parts with
    | (.error e, s') => (.error e, s')
    | (.ok (), s') => (.ok m.size, s')

end Sink

structure AsyncWriter (σ : Type) where
  schema : Schema
  sink : Sink σ
  finished : Bool := false

namespace AsyncWriter

variable {σ : Type} [Device σ]

/-- A writer whose schema is in the sink already; a failure comes with the sink it left. -/
def start (schema : Schema) (sink : Sink σ) : Except (Failure × Sink σ) (AsyncWriter σ) :=
  match schema.encode with
  | .error e => .error (e, sink)
  | .ok metadata =>
    match sink.sendMessage ⟨metadata, #[]⟩ with
    | (.error e, sink) => .error (e, sink)
    | (.ok _, sink) => .ok { schema, sink }

def writeBatch (w : AsyncWriter σ) (b : Batch) : Result Unit × AsyncWriter σ :=
  if w.finished then (fail .writerClosed, w)
  else if b.schema ≠ w.schema then (fail .schemaMismatch, w)
  else
    match b.encode with
    | .error e => (.error e, w)
    | .ok (metadata, body) =>
      match w.sink.sendMessage ⟨metadata, body⟩ with
      | (.error e, sink) => (.error e, { w with sink })
      | (.ok _, sink) => (.ok (), { w with sink })

/-- Sends the end marker and flushes, once. -/
def finish (w : AsyncWriter σ) : Result Unit × AsyncWriter σ :=
  if w.finished then (.ok (), w)
  else
    match w.sink.sendAll endMarker.toArray with
    | (.error e, sink) => (.error e, { w with sink })
    | (.ok (), sink) =>
      match sink.flush with
      | (.error e, sink) => (.error e, { w with sink })
      | (.ok (), sink) => (.ok (), { w with sink, finished := true })

end AsyncWriter

end ColumnStream
