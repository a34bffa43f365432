/-
The reader for awaited sources against a blocking reader. Each section of a message that one of them receives the
other reads, up to the same byte. Unless the source is interrupted, no number of calls, made after failures or after
the end of the stream as well, tells which of the two it is; if it is, nothing tells them apart up to there.
-/
import ColumnStream.Proofs.Result
import ColumnStream.Proofs.Transport.Awaiting
import ColumnStream.Stream.AsyncReader
import ColumnStream.Stream.Reader

namespace ColumnStream

variable {σ : Type}

/-! ## What can be seen of a reader -/

/-- What a reader shows between calls. -/
structure Reader.Sight where
  schema : Schema
  finished : Bool
  taken : Nat

def Reader.sight (r : Reader σ) : Sight := ⟨r.schema, r.finished, r.source.taken⟩

def AsyncReader.sight (a : AsyncReader σ) : Reader.Sight := ⟨a.schema, a.finished, a.source.taken⟩

section Histories

variable [Device σ]

/-- How so many calls are answered one after another, and what the reader shows after each of them. -/
def Reader.answers (r : Reader σ) : Nat → List (Result (Option Batch) × Sight)
  | 0 => []
  | n + 1 => (r.readBatch.1, r.readBatch.2.sight) :: r.readBatch.2.answers n

def Reader.history (r : Reader σ) (calls : Nat) : Sight × List (Result (Option Batch) × Sight) :=
  (r.sight, r.answers calls)

def AsyncReader.answers (a : AsyncReader σ) : Nat → List (Result (Option Batch) × Reader.Sight)
  | 0 => []
  | n + 1 => (a.readBatch.1, a.readBatch.2.sight) :: a.readBatch.2.answers n

def AsyncReader.history (a : AsyncReader σ) (calls : Nat) :
    Reader.Sight × List (Result (Option Batch) × Reader.Sight) :=
  (a.sight, a.answers calls)

end Histories

/-! ## Messages -/

variable {ready : σ → Prop} {breaks : Prop}

namespace Source

variable [Device σ] (steady : Device.Steady ready breaks) {s : Source σ} (h : ready s.device)
include steady h

theorem receiveSection_alike (limits : Limits) (part : Section) (length : Nat) :
    Alike (Abreast Source.device ready) breaks (s.receiveSection limits part length)
      (s.readSection limits part length) := by
  unfold receiveSection readSection
  rcases limits.room length with e | size
  · exact .same ⟨rfl, h⟩
  have received := receiveBytes_alike steady h size
  simp only
  generalize s.receiveBytes size = awaited, s.fill size = blocking at received
  cases received using Alike.ends with
  | interrupted _ _ broke => exact .interrupted broke
  | refused e s₁ ready' => exact .same ⟨rfl, ready'⟩
  | answered found s₁ ready' => exact .same ⟨rfl, ready'⟩

theorem receiveMessage_alike (limits : Limits) :
    Alike (Abreast Source.device ready) breaks (s.receiveMessage limits) (s.readMessage limits) := by
  have marker := receiveBytes_alike steady h markerLength
  unfold receiveMessage readMessage
  generalize s.receiveBytes markerLength = awaited, s.fill markerLength = blocking at marker
  cases marker using Alike.ends with
  | interrupted _ _ broke => exact .interrupted broke
  | refused e s₁ ready₁ => exact .same ⟨rfl, ready₁⟩
  | answered found s₁ ready₁ =>
  simp only
  rcases limits.metadataLength found with e | _ | length
  · exact .same ⟨rfl, ready₁⟩
  · exact .same ⟨rfl, ready₁⟩
  have metadata := receiveSection_alike steady ready₁ limits .metadata length
  simp only
  generalize s₁.receiveSection limits .metadata length = awaited, s₁.readSection limits .metadata length = blocking
    at metadata
  cases metadata using Alike.ends with
  | interrupted _ _ broke => exact .interrupted broke
  | refused e s₂ ready₂ => exact .same ⟨rfl, ready₂⟩
  | answered found s₂ ready₂ =>
  simp only
  rcases limits.bodyLength found.toList with e | length
  · exact .same ⟨rfl, ready₂⟩
  have body := receiveSection_alike steady ready₂ limits .body length
  simp only
  generalize s₂.receiveSection limits .body length = awaited, s₂.readSection limits .body length = blocking at body
  cases body using Alike.ends with
  | interrupted _ _ broke => exact .interrupted broke
  | refused e s₃ ready₃ => exact .same ⟨rfl, ready₃⟩
  | answered found s₃ ready₃ => exact .same ⟨rfl, ready₃⟩

end Source

/-! ## States that mirror each other -/

namespace AsyncReader

/-- The blocking reader has come as far, and the device of the source is in one of these states. -/
structure Mirrors (ready : σ → Prop) (a : AsyncReader σ) (r : Reader σ) : Prop where
  source : r.source = a.source
  schema : r.schema = a.schema
  limits : r.limits = a.limits
  finished : r.finished = a.finished
  ready : ready a.source.device

variable {a : AsyncReader σ} {r : Reader σ}

theorem Mirrors.sight_eq (h : Mirrors ready a r) : a.sight = r.sight := by
  rw [sight, Reader.sight, h.schema, h.finished, h.source]

variable [Device σ]

section Steady

variable (steady : Device.Steady ready breaks)
include steady

theorem Mirrors.readBatch (h : Mirrors ready a r) : Alike (Mirrors ready) breaks a.readBatch r.readBatch := by
  unfold AsyncReader.readBatch Reader.readBatch
  rw [h.finished, h.source, h.limits, h.schema]
  split
  · exact .same h
  have read := Source.receiveMessage_alike steady h.ready a.limits
  generalize a.source.receiveMessage a.limits = awaited, a.source.readMessage a.limits = blocking at read
  cases read using Alike.ends with
  | interrupted _ _ broke => exact .interrupted broke
  | refused e s ready' => exact .same ⟨rfl, rfl, rfl, rfl, ready'⟩
  | answered found s ready' =>
  have mirrors (batchesRead : Nat) : Mirrors ready { a with source := s }
      ⟨s, a.schema, a.limits, a.finished, batchesRead⟩ := ⟨rfl, rfl, rfl, rfl, ready'⟩
  rcases found with _ | m
  · exact .same ⟨rfl, rfl, rfl, rfl, ready'⟩
  -- The message is read by now; whether it can be used is decided without the device.
  simp only [Reader.batchOf]
  rcases Metadata.decode m.metadata with e | ⟨schema | header, length⟩
  · exact .same (mirrors _)
  · exact .same (mirrors _)
  simp only [ok_bind]
  cases Batch.ofHeader a.schema header m.body with
  | error e => exact .same (mirrors _)
  | ok b => exact .same (mirrors _)

/-- Both readers begin alike, or fail alike and leave the same source. -/
theorem start_begun {source : Source σ} (h : ready source.device) (limits : Limits) :
    Begun (Mirrors ready) breaks (start source limits) (Reader.start source limits) := by
  have read := Source.receiveMessage_alike steady h limits
  unfold start Reader.start
  generalize source.receiveMessage limits = awaited, source.readMessage limits = blocking at read
  cases read using Alike.ends with
  | interrupted _ _ broke => exact .interrupted broke
  | refused e s ready' => exact .refused _
  | answered found s ready' =>
  rcases found with _ | m
  · exact .refused _
  simp only [Reader.schemaOf]
  rcases Metadata.decode m.metadata with e | ⟨schema | header, length⟩
  · exact .refused _
  · exact .same ⟨rfl, rfl, rfl, rfl, ready'⟩
  · exact .refused _

end Steady

/-! ## Histories -/

/-- Where a device may be interrupted, this counts the calls up to there. -/
theorem Mirrors.answers_eq (steady : Device.Steady ready breaks) (h : Mirrors ready a r) {calls : Nat}
    (whole : breaks → ∀ seen ∈ a.answers calls, seen.1 ≠ fail (.device .interrupted)) :
    a.answers calls = r.answers calls := by
  induction calls generalizing a r with
  | zero => rfl
  | succ n ih =>
    have read := h.readBatch steady
    rw [answers] at whole ⊢
    rw [Reader.answers]
    generalize a.readBatch = awaited, r.readBatch = blocking at whole read
    cases read with
    | interrupted broke => exact absurd rfl (whole broke _ (List.mem_cons_self ..))
    | same next =>
      rw [next.sight_eq, ih next fun broke seen later => whole broke seen (List.mem_cons_of_mem _ later)]

/-- Unless the source is interrupted, no number of calls tells an awaiting reader from a blocking one: both begin with
the same schema or fail alike and leave the same source, and each call is answered alike and takes as many bytes. -/
theorem reads_as_blocking (uninterrupted : Device.Uninterrupted ready) {source : Source σ} (h : ready source.device)
    (limits : Limits) (calls : Nat) :
    (start source limits).map (·.history calls) = (Reader.start source limits).map (·.history calls) := by
  have begun := start_begun uninterrupted.steady h limits
  generalize start source limits = awaited, Reader.start source limits = blocking at begun
  cases begun with
  | refused e => rfl
  | interrupted broke => exact broke.elim
  | @same a r mirrors =>
    have answers : a.answers calls = r.answers calls := mirrors.answers_eq uninterrupted.steady False.elim
    simp only [Except.map, history, Reader.history, mirrors.sight_eq, answers]

/-- Whatever the source, an awaiting reader is a blocking one up to the first call that is interrupted. -/
theorem reads_until_interrupted {source : Source σ} {limits : Limits} (started : start source limits = .ok a)
    {calls : Nat} (whole : ∀ seen ∈ a.answers calls, seen.1 ≠ fail (.device .interrupted)) :
    ∃ r, Reader.start source limits = .ok r ∧ a.history calls = r.history calls := by
  have begun : Begun _ _ (start source limits) (Reader.start source limits) :=
    start_begun Device.steady_any trivial limits
  rw [started] at begun
  generalize Reader.start source limits = blocking at begun
  cases begun with
  | @same a r mirrors =>
    refine ⟨r, rfl, ?_⟩
    rw [history, Reader.history, mirrors.sight_eq, mirrors.answers_eq Device.steady_any fun _ => whole]

/-! ### A source that breaks -/

/-- A stream without batches, on a device that moves three bytes a call and breaks once, inside the end marker. -/
def breaking : Source Script :=
  ⟨{ chunk := some 3, planned := [⟨20, .breakage, 1⟩] },
    (continuation ++ [8, 0, 0, 0, 1, 1, 0, 0, 0, 0, 0, 0] ++ endMarker).toArray, 0⟩

/-- Room for the padded schema and for no body. -/
def tight : Limits := { maxMetadata := 8, maxBody := 0 }

/-- The call that fails takes four bytes, and the next one starts behind them. -/
theorem reads_as_blocking_breaking : (start breaking tight).map (·.history 3) =
    .ok (⟨⟨[]⟩, false, 16⟩, [(fail (.device .brokenPipe), ⟨⟨[]⟩, false, 20⟩),
      (fail (.corruptStream (.endsInMarker 4)), ⟨⟨[]⟩, false, 24⟩), (.ok none, ⟨⟨[]⟩, true, 24⟩)]) := by
  have unbroken : Script.Unbroken breaking.device := by
    intro p hp
    obtain rfl := List.mem_singleton.1 hp
    exact nofun
  rw [reads_as_blocking Script.uninterrupted unbroken tight 3]
  have marker : breaking.fill markerLength =
      (.ok #[255, 255, 255, 255, 8, 0, 0, 0], { breaking with taken := 8 }) := by cbv
  have metadata : Source.readSection tight .metadata 8 { breaking with taken := 8 } =
      (.ok #[1, 1, 0, 0, 0, 0, 0, 0], { breaking with taken := 16 }) := by cbv
  have body : Source.readSection tight .body 0 { breaking with taken := 16 } =
      (.ok #[], { breaking with taken := 16 }) := by cbv
  have length : tight.metadataLength #[255, 255, 255, 255, 8, 0, 0, 0] = .ok (some 8) := rfl
  have bodiless : tight.bodyLength [1, 1, 0, 0, 0, 0, 0, 0] = .ok 0 := rfl
  have opened : Reader.start breaking tight =
      .ok { source := { breaking with taken := 16 }, schema := ⟨[]⟩, limits := tight } := by
    simp only [Reader.start, Source.readMessage, marker, length, metadata, bodiless, body]
    rfl
  rw [opened]
  cbv

/-- The same stream on a device that is interrupted once, inside the marker. -/
def interrupting : Source Script := { breaking with device := { planned := [⟨5, .interruption, 1⟩] } }

/-- There the awaiting reader fails and the blocking one goes on. -/
example : (start interrupting).mapError (fun (e, left) => (e, left.taken)) = .error (.error (.device .interrupted), 5) ∧
    (interrupting.fill markerLength).1 = .ok #[255, 255, 255, 255, 8, 0, 0, 0] :=
  ⟨by cbv, by cbv⟩

end AsyncReader

end ColumnStream
