/-
The writer for awaited devices against a blocking writer that is to leave its sink open. Unless the sink is
interrupted, each part of a message that one of them sends the other writes, up to the same byte; each call takes
the two from states that mirror each other to such states and is answered alike. So nothing that can be seen of a
writer tells which of the two it is, however its sink fails.
-/
import ColumnStream.Proofs.Stream.Writer
import ColumnStream.Proofs.Transport.Awaiting
import ColumnStream.Stream.AsyncWriter

namespace ColumnStream

variable {σ : Type}

/-! ## What can be seen of a writer -/

/-- What a writer shows between calls. The sink holds the bytes and the number of flushes that reached it. -/
structure Writer.Sight (σ : Type) where
  schema : Schema
  finished : Bool
  sink : Sink σ

def Writer.sight (w : Writer σ) : Sight σ := ⟨w.schema, w.finished, w.sink⟩

def AsyncWriter.sight (a : AsyncWriter σ) : Writer.Sight σ := ⟨a.schema, a.finished, a.sink⟩

section Histories

variable [Device σ]

/-- How the calls are answered one after another, and what the writer shows after each of them. -/
def Writer.answers (w : Writer σ) : List Call → List (Result Unit × Sight σ)
  | [] => []
  | c :: calls => ((w.call c).1, (w.call c).2.sight) :: (w.call c).2.answers calls

def Writer.history (w : Writer σ) (calls : List Call) : Sight σ × List (Result Unit × Sight σ) :=
  (w.sight, w.answers calls)

def AsyncWriter.call (a : AsyncWriter σ) : Writer.Call → Result Unit × AsyncWriter σ
  | .write b => a.writeBatch b
  | .finish => a.finish

def AsyncWriter.answers (a : AsyncWriter σ) : List Writer.Call → List (Result Unit × Writer.Sight σ)
  | [] => []
  | c :: calls => ((a.call c).1, (a.call c).2.sight) :: (a.call c).2.answers calls

def AsyncWriter.history (a : AsyncWriter σ) (calls : List Writer.Call) :
    Writer.Sight σ × List (Result Unit × Writer.Sight σ) :=
  (a.sight, a.answers calls)

end Histories

/-! ## Messages -/

variable {ready : σ → Prop} {breaks : Prop}

namespace Sink

variable [Device σ] (steady : Device.Steady ready breaks) {s : Sink σ} (h : ready s.device)
include steady h

theorem sendParts_alike (parts : List Buffer) :
    Alike (Abreast Sink.device ready) breaks (s.sendParts parts) (s.writeParts parts) := by
  induction parts generalizing s with
  | nil => exact .same ⟨rfl, h⟩
  | cons part parts ih =>
    have first := sendAll_alike steady h part
    unfold sendParts writeParts
    generalize s.sendAll part = awaited, s.writeAll part = blocking at first
    cases first using Alike.ends with
    | interrupted _ _ broke => exact .interrupted broke
    | refused e s₁ ready' => exact .same ⟨rfl, ready'⟩
    | answered u s₁ ready' => exact ih ready'

theorem sendMessage_alike (m : Message) :
    Alike (Abreast Sink.device ready) breaks (s.sendMessage m) (s.writeMessage m) := by
  unfold sendMessage writeMessage
  rcases m.parts with e | parts
  · exact .same ⟨rfl, h⟩
  have sent := sendParts_alike steady h parts
  simp only
  generalize s.sendParts parts = awaited, s.writeParts parts = blocking at sent
  cases sent using Alike.ends with
  | interrupted _ _ broke => exact .interrupted broke
  | refused e s₁ ready' => exact .same ⟨rfl, ready'⟩
  | answered u s₁ ready' => exact .same ⟨rfl, ready'⟩

omit steady in
theorem flush_ready (flushes : ∀ d, ready d → ready (Device.flush d).2) : ready s.flush.2.device := by
  have kept := flushes s.device h
  unfold Sink.flush
  split <;> rename_i ran <;> rwa [ran] at kept

end Sink

/-! ## States that mirror each other -/

namespace AsyncWriter

/-- The blocking writer is in the same state, with the sink's device in one of these, and will not give its sink up. -/
structure Mirrors (ready : σ → Prop) (a : AsyncWriter σ) (w : Writer σ) : Prop where
  schema : w.schema = a.schema
  sink : w.sink = a.sink
  finished : w.finished = a.finished
  holdsSink : w.holdsSink = true
  leaveOpen : w.leaveOpen = true
  ready : ready a.sink.device

variable {a : AsyncWriter σ} {w : Writer σ}

theorem Mirrors.sight_eq (h : Mirrors ready a w) : a.sight = w.sight := by
  rw [sight, Writer.sight, h.schema, h.finished, h.sink]

variable [Device σ]

section Steady

variable (steady : Device.Steady ready breaks)
include steady

theorem Mirrors.writeBatch (h : Mirrors ready a w) (b : Batch) :
    Alike (Mirrors ready) breaks (a.writeBatch b) (w.writeBatch b) := by
  unfold AsyncWriter.writeBatch Writer.writeBatch
  rw [h.finished, h.schema, h.sink, if_pos h.holdsSink]
  split
  · exact .same h
  split
  · exact .same h
  rcases b.encode with e | ⟨metadata, body⟩
  · exact .same h
  have sent := Sink.sendMessage_alike steady h.ready ⟨metadata, body⟩
  simp only
  generalize a.sink.sendMessage ⟨metadata, body⟩ = awaited, a.sink.writeMessage ⟨metadata, body⟩ = blocking at sent
  -- The sink decides: it took the whole message, failed somewhere inside it, or was interrupted there.
  cases sent using Alike.ends with
  | interrupted _ _ broke => exact .interrupted broke
  | refused e s ready' => exact .same ⟨rfl, rfl, rfl, h.holdsSink, h.leaveOpen, ready'⟩
  | answered n s ready' => exact .same ⟨rfl, rfl, rfl, h.holdsSink, h.leaveOpen, ready'⟩

theorem Mirrors.finish (flushes : ∀ d, ready d → ready (Device.flush d).2) (h : Mirrors ready a w) :
    Alike (Mirrors ready) breaks a.finish w.finish := by
  unfold AsyncWriter.finish Writer.finish Sink.writeEnd
  rw [h.finished, h.sink, if_pos h.holdsSink]
  split
  · exact .same h
  have ended := Sink.sendAll_alike steady h.ready endMarker.toArray
  generalize a.sink.sendAll endMarker.toArray = awaited, a.sink.writeAll endMarker.toArray = blocking at ended
  cases ended using Alike.ends with
  | interrupted _ _ broke => exact .interrupted broke
  | refused e s ready' => exact .same ⟨h.schema, rfl, rfl, h.holdsSink, h.leaveOpen, ready'⟩
  | answered u s ready' =>
    have kept := Sink.flush_ready ready' flushes
    simp only
    rcases flushed : s.flush with ⟨e | u, s₁⟩ <;> rw [flushed] at kept
    · exact .same ⟨h.schema, rfl, rfl, h.holdsSink, h.leaveOpen, kept⟩
    -- A writer that leaves its sink open still holds it when it has finished.
    · exact .same ⟨h.schema, rfl, rfl, h.leaveOpen, h.leaveOpen, kept⟩

theorem Mirrors.call (flushes : ∀ d, ready d → ready (Device.flush d).2) (h : Mirrors ready a w) (c : Writer.Call) :
    Alike (Mirrors ready) breaks (a.call c) (w.call c) :=
  match c with
  | .write b => h.writeBatch steady b
  | .finish => h.finish steady flushes

/-- Both writers begin alike, or fail alike and leave the same sink. -/
theorem start_begun (schema : Schema) {sink : Sink σ} (h : ready sink.device) :
    Begun (Mirrors ready) breaks (start schema sink) (Writer.start schema sink true) := by
  unfold start Writer.start
  rcases schema.encode with e | metadata
  · exact .refused _
  have sent := Sink.sendMessage_alike steady h ⟨metadata, #[]⟩
  simp only
  generalize sink.sendMessage ⟨metadata, #[]⟩ = awaited, sink.writeMessage ⟨metadata, #[]⟩ = blocking at sent
  cases sent using Alike.ends with
  | interrupted _ _ broke => exact .interrupted broke
  | refused e s ready' => exact .refused _
  | answered n s ready' => exact .same ⟨rfl, rfl, rfl, rfl, rfl, ready'⟩

end Steady

/-! ## Histories -/

section Uninterrupted

variable (uninterrupted : Device.Uninterrupted ready) (flushes : ∀ d, ready d → ready (Device.flush d).2)
include uninterrupted flushes

theorem Mirrors.answers_eq (h : Mirrors ready a w) (calls : List Writer.Call) :
    a.answers calls = w.answers calls := by
  induction calls generalizing a w with
  | nil => rfl
  | cons c calls ih =>
    obtain ⟨answer, next⟩ := (h.call uninterrupted.steady flushes c).agree
    rw [answers, Writer.answers, answer, next.sight_eq, ih next]

theorem Mirrors.history_eq (h : Mirrors ready a w) (calls : List Writer.Call) :
    a.history calls = w.history calls := by
  rw [history, Writer.history, h.sight_eq, h.answers_eq uninterrupted flushes]

/-- Unless the sink is interrupted, no sequence of calls tells an awaiting writer from a blocking one that leaves its
sink open: both begin with the same sink or the same failure, and each call is answered alike and leaves the same
bytes and flushes in the sink. -/
theorem history_eq_blocking (schema : Schema) {sink : Sink σ} (h : ready sink.device) (calls : List Writer.Call) :
    (start schema sink).map (·.history calls) = (Writer.start schema sink true).map (·.history calls) := by
  have begun := start_begun uninterrupted.steady schema h
  generalize start schema sink = awaited, Writer.start schema sink true = blocking at begun
  cases begun with
  | same mirrors => exact congrArg Except.ok (mirrors.history_eq uninterrupted flushes calls)
  | refused e => rfl
  | interrupted broke => exact broke.elim

end Uninterrupted

/-! ### A sink that fails in more than one way -/

/-- An empty sink that takes five bytes a call, breaks once, at its twentieth byte, and fails its first flush. -/
def unsteady : Sink Script := ⟨{ chunk := some 5, planned := [⟨20, .breakage, 1⟩], failingFlushes := 1 }, #[], 0⟩

/-- Three rows without columns, and no rows of another schema. -/
def rows : Batch := ⟨⟨[]⟩, 3, []⟩
def others : Batch := ⟨⟨[⟨"v", .fixed .uint8, false⟩]⟩, 0, []⟩

def turns : List Writer.Call := [.write others, .finish, .write rows, .finish, .finish, .finish, .write rows]

/-- Of each call its answer, whether the writer has finished, and how many bytes and flushes have come to the sink. -/
def account (history : Writer.Sight Script × List (Result Unit × Writer.Sight Script)) :
    List (Result Unit × Bool × Nat × Nat) :=
  history.2.map fun (answer, seen) => (answer, seen.finished, seen.sink.written.size, seen.sink.flushes)

/-- The first end marker breaks after four of its bytes, the flush after the second one fails, and there is a third. -/
theorem history_eq_blocking_unsteady : ((start ⟨[]⟩ unsteady).map (·.history turns)).map account =
    .ok [(fail .schemaMismatch, false, 16, 0), (fail (.device .brokenPipe), false, 20, 0), (.ok (), false, 36, 0),
      (fail (.device .other), false, 44, 1), (.ok (), true, 52, 2), (.ok (), true, 52, 2),
      (fail .writerClosed, true, 52, 2)] := by
  have unbroken : Script.Unbroken unsteady.device := by
    intro p hp
    obtain rfl := List.mem_singleton.1 hp
    exact nofun
  rw [history_eq_blocking Script.uninterrupted (fun _ => Script.unbroken_flush) ⟨[]⟩ unbroken turns]
  cbv

/-- A sink that is interrupted once, inside the schema. -/
def interrupting : Sink Script := ⟨{ planned := [⟨5, .interruption, 1⟩] }, #[], 0⟩

/-- There the awaiting writer fails and the blocking one goes on. -/
example : (start ⟨[]⟩ interrupting).mapError (fun (e, left) => (e, left.written.size)) =
      .error (.error (.device .interrupted), 5) ∧
    (Writer.start ⟨[]⟩ interrupting true).map (·.sink.written.size) = .ok 16 :=
  ⟨by cbv, by cbv⟩

end AsyncWriter

end ColumnStream
