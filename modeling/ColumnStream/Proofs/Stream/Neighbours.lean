/-
Messages beside bad ones. Where messages stand one after another, each call reads the next of them whole and
decodes it by itself, so what comes of a message depends on no other one, and a call after the last message finds
the end and none reads on from there. An iteration makes the same calls, but no more after the first error.
-/
import ColumnStream.Proofs.Stream.Reader

namespace ColumnStream

/-! ## Messages in a row -/

namespace Message

/-- The bytes begin with the messages, one after another, and then comes `rest`. -/
inductive Lined : Bytes → List Message → Bytes → Prop
  | nil (rest : Bytes) : Lined rest [] rest
  | cons {x y rest : Bytes} {m : Message} {ms : List Message} : m.Stands x y → Lined y ms rest →
      Lined x (m :: ms) rest

/-- How far a reader has come after so many calls, if the messages are followed by the end. -/
def reached : List Message → Nat → Nat
  | _, 0 => 0
  | [], _ + 1 => markerLength
  | m :: ms, calls + 1 => m.size + reached ms calls

end Message

/-! ## Items up to an error -/

/-- The results up to and with the first failure. -/
def upToFailure {α : Type} : List (Result α) → List (Result α)
  | [] => []
  | .ok a :: results => .ok a :: upToFailure results
  | .error e :: _ => [.error e]

namespace Reader

/-- What comes of the calls that read these messages and then the end. -/
def outcomes (schema : Schema) (ms : List Message) : List (Result (Option Batch)) :=
  ms.map (fun m => (batchOf schema m).map some) ++ [.ok none]

/-- What an iteration makes of the result of a call. -/
def item : Result (Option Batch) → Option (Result Batch)
  | .ok none => none
  | .ok (some b) => some (.ok b)
  | .error e => some (.error e)

/-- A message of the stream is decoded as it is by itself; only the wording differs for the message of a schema. -/
theorem batchOf_eq_decode (schema : Schema) (m : Message) :
    batchOf schema m = Batch.decode schema m.metadata m.body ∨
      batchOf schema m = fail (.corruptStream .lateSchema) ∧
        Batch.decode schema m.metadata m.body = fail (.corruptStream .batchExpected) := by
  unfold batchOf Batch.decode
  rcases Metadata.decode m.metadata with e | ⟨schema' | header, bodyLength⟩
  · exact .inl rfl
  · exact .inr ⟨rfl, rfl⟩
  · exact .inl rfl

variable {σ : Type} [Device σ]

/-- The reader after so many calls. -/
def afterReads (r : Reader σ) (calls : Nat) : Reader σ := (fun r => r.readBatch.2)^[calls] r

/-- The reader after so many steps of an iteration. -/
def afterSteps (r : Reader σ) (calls : Nat) : Reader σ := (fun r => r.next?.2)^[calls] r

theorem afterReads_succ (r : Reader σ) (calls : Nat) : r.afterReads (calls + 1) = r.readBatch.2.afterReads calls := rfl

theorem afterSteps_succ (r : Reader σ) (calls : Nat) : r.afterSteps (calls + 1) = r.next?.2.afterSteps calls := rfl

/-! ## Readers that have finished -/

theorem readBatch_of_finished {r : Reader σ} (h : r.finished = true) : r.readBatch = (.ok none, r) := by
  rw [readBatch, if_pos h]

theorem afterReads_of_finished {r : Reader σ} (h : r.finished = true) (calls : Nat) : r.afterReads calls = r :=
  Function.iterate_fixed (by rw [readBatch_of_finished h]) calls

theorem afterSteps_of_finished {r : Reader σ} (h : r.finished = true) (calls : Nat) : r.afterSteps calls = r :=
  Function.iterate_fixed (by rw [next?_of_finished h]) calls

/-! ## Steps of an iteration -/

theorem next?_of_ok {r : Reader σ} {found : Option Batch} (h : r.readBatch.1 = .ok found) :
    r.next? = (item (.ok found), r.readBatch.2) := by
  rw [next?, ← Prod.mk.eta (p := r.readBatch), h]
  cases found <;> rfl

/-- After an error the iteration is over, wherever the source is. -/
theorem next?_of_fail {r : Reader σ} {cause : Error} (h : r.readBatch.1 = fail cause) :
    r.next? = (some (fail cause), { r.readBatch.2 with finished := true }) := by
  rw [next?, ← Prod.mk.eta (p := r.readBatch), h]
  rfl

/-! ## All of them -/

section

variable {ready : σ → Prop} (obliging : Device.Obliging ready) {schema : Schema} {limits : Limits}
include obliging

/-- What the next call answers, whether the end was found, how many batches were brought, and how far the source was
read. -/
structure Stage (schema : Schema) (ms : List Message) (r : Reader σ) (calls : Nat) : Prop where
  finished : (r.afterReads calls).finished = true ↔ ms.length < calls
  result : (r.afterReads calls).readBatch.1 = (outcomes schema ms).getD calls (.ok none)
  batchesRead : (r.afterReads calls).batchesRead = r.batchesRead + ((outcomes schema ms).take calls).countP brings
  taken : (r.afterReads calls).source.taken = r.source.taken + Message.reached ms calls

theorem stage {ms : List Message} {rest : Bytes} {r : Reader σ} (going : Going ready schema limits r)
    (lined : Message.Lined r.source.ahead ms (endMarker ++ rest))
    (admits : ∀ m ∈ ms, limits.Admits m.metadata.length m.body.size) (calls : Nat) : Stage schema ms r calls := by
  generalize behind : endMarker ++ rest = tail at lined
  generalize next : r.source.ahead = x at lined
  induction lined generalizing r calls with
  | nil tail =>
    obtain ⟨result, finished, -, taken, counted⟩ := readBatch_of_end obliging going (next.trans behind.symm)
    cases calls with
    | zero => exact ⟨by simp [afterReads, going.finished], result, rfl, rfl⟩
    | succ calls =>
      have same := afterReads_of_finished finished calls
      refine ⟨?_, ?_, ?_, ?_⟩ <;> rw [afterReads_succ, same]
      · simp [finished]
      · rw [readBatch_of_finished finished]
        simp [outcomes]
      · rw [counted]
        simp [outcomes, brings]
      · exact taken
  | @cons x y tail m ms stands _ ih =>
    obtain ⟨own, others⟩ := List.forall_mem_cons.1 admits
    obtain ⟨going', result, ahead, taken, counted⟩ := readBatch_of_stands obliging going (next ▸ stands) own
    cases calls with
    | zero => exact ⟨by simp [afterReads, going.finished], result, rfl, rfl⟩
    | succ calls =>
      obtain ⟨finished', result', counted', taken'⟩ := ih going' others calls behind ahead
      refine ⟨?_, result', ?_, ?_⟩ <;> rw [afterReads_succ]
      · rw [finished', List.length_cons, Nat.succ_lt_succ_iff]
      · rw [counted', counted, Nat.add_assoc, ← List.countP_append]
        rfl
      · rw [taken', taken, Nat.add_assoc]
        rfl

/-- What the next step of an iteration answers, and where the source is: as after the calls that it comes down to. -/
structure Pass (schema : Schema) (ms : List Message) (r : Reader σ) (steps : Nat) : Prop where
  result : (r.afterSteps steps).next?.1 = item ((upToFailure (outcomes schema ms)).getD steps (.ok none))
  source : (r.afterSteps steps).source = (r.afterReads (min steps (upToFailure (outcomes schema ms)).length)).source

theorem pass {ms : List Message} {rest : Bytes} {r : Reader σ} (going : Going ready schema limits r)
    (lined : Message.Lined r.source.ahead ms (endMarker ++ rest))
    (admits : ∀ m ∈ ms, limits.Admits m.metadata.length m.body.size) (steps : Nat) : Pass schema ms r steps := by
  generalize behind : endMarker ++ rest = tail at lined
  generalize next : r.source.ahead = x at lined
  induction lined generalizing r steps with
  | nil tail =>
    obtain ⟨result, finished, -⟩ := readBatch_of_end obliging going (next.trans behind.symm)
    have ended := next?_of_ok result
    cases steps with
    | zero => exact ⟨congrArg Prod.fst ended, rfl⟩
    | succ steps =>
      have finished' : r.next?.2.finished = true := by rw [ended]; exact finished
      have same := afterSteps_of_finished finished' steps
      constructor <;> rw [afterSteps_succ, same]
      · rw [next?_of_finished finished']
        simp [outcomes, upToFailure, item]
      · rw [ended]
        simp [outcomes, upToFailure, afterReads]
  | @cons x y tail m ms stands _ ih =>
    obtain ⟨own, others⟩ := List.forall_mem_cons.1 admits
    obtain ⟨going', result, ahead, -, -⟩ := readBatch_of_stands obliging going (next ▸ stands) own
    rcases (answers_batchOf schema m).cases with ⟨b, found, -⟩ | ⟨cause, failed, -⟩
    · have first : outcomes schema (m :: ms) = .ok (some b) :: outcomes schema ms := by
        rw [outcomes, List.map_cons, found]
        rfl
      rw [found] at result
      have step := next?_of_ok result
      cases steps with
      | zero => exact ⟨by rw [first]; exact congrArg Prod.fst step, rfl⟩
      | succ steps =>
        obtain ⟨result', source'⟩ := ih going' others steps behind ahead
        constructor <;> rw [afterSteps_succ, step, first]
        · exact result'
        · rw [source', upToFailure, List.length_cons, Nat.succ_min_succ, afterReads_succ]
    · have first : outcomes schema (m :: ms) = fail cause :: outcomes schema ms := by
        rw [outcomes, List.map_cons, failed]
        rfl
      rw [failed] at result
      have step := next?_of_fail result
      cases steps with
      | zero => exact ⟨by rw [first]; exact congrArg Prod.fst step, rfl⟩
      | succ steps =>
        have finished' : r.next?.2.finished = true := by rw [step]
        have same := afterSteps_of_finished finished' steps
        constructor <;> rw [afterSteps_succ, same, first]
        · rw [next?_of_finished finished']
          rfl
        · rw [step]
          simp [upToFailure, fail, afterReads]

/-- Each call on a stream decodes the next message by itself, counts the batches that it brought, and reads on by just
that message, up to the end marker; after that it changes nothing. An iteration makes the same calls up to the first
error. -/
theorem reads_apart {source : Source σ} (h : ready source.device) {first : Message} {ms : List Message}
    {x rest : Bytes} (opens : first.Stands source.ahead x) (carries : schemaOf (some first) = .ok schema)
    (lined : Message.Lined x ms (endMarker ++ rest))
    (admits : ∀ m ∈ first :: ms, limits.Admits m.metadata.length m.body.size) :
    (∃ r, start source limits = .ok r ∧ r.schema = schema ∧ r.batchesRead = 0 ∧
      r.source.taken = source.taken + first.size ∧ (∀ calls, Stage schema ms r calls ∧ Pass schema ms r calls) ∧
      ∀ calls, ms.length < calls → (r.afterReads calls).readBatch = (.ok none, r.afterReads calls)) ∧
    ∀ m ∈ ms, batchOf schema m = Batch.decode schema m.metadata m.body ∨
      batchOf schema m = fail (.corruptStream .lateSchema) ∧
        Batch.decode schema m.metadata m.body = fail (.corruptStream .batchExpected) := by
  obtain ⟨own, others⟩ := List.forall_mem_cons.1 admits
  obtain ⟨r, started, going, ahead, taken⟩ := start_of_stands obliging h opens own carries
  rw [← ahead] at lined
  have none : r.batchesRead = 0 := by
    unfold start at started
    split at started
    · cases started
    · split at started <;> cases started
      rfl
  have stages := stage obliging going lined others
  exact ⟨⟨r, started, going.schema, none, taken, fun calls => ⟨stages calls, pass obliging going lined others calls⟩,
    fun calls past => readBatch_of_finished ((stages calls).finished.2 past)⟩, fun m _ => batchOf_eq_decode schema m⟩

end

/-! ### Messages beside bad ones -/

/-- The metadata as a message without a body, padded but with its own length. -/
def bare (metadata : Bytes) : Bytes :=
  continuation ++ Bytes.ofNat 4 metadata.length ++ Message.filled metadata

theorem stands_bare {metadata left : Bytes} {kind : MessageKind} (short : metadata.length < Bytes.card 4)
    (prelude : Metadata.parsePrelude metadata = .ok ((kind, 0), left)) (rest : Bytes) :
    Message.Stands (bare metadata ++ rest) ⟨metadata, #[]⟩ rest := by
  have value : Bytes.toNat (Bytes.ofNat 4 metadata.length) = metadata.length := by
    rw [Bytes.toNat_ofNat, Nat.mod_eq_of_lt short]
  have stands := @Message.Stands.intro ⟨metadata, #[]⟩ rest (Bytes.ofNat 4 metadata.length)
    (Bytes.zeros (padding metadata.length)) [] left kind (Bytes.length_ofNat _ _) value (by simp [Bytes.zeros])
    (by simp [padding, alignment]) prelude
  simpa only [List.append_nil, List.append_assoc, bare, Message.filled] using stands

/-- A batch whose header is cut, a second schema, and a batch of two rows without columns. -/
def mixed : List Message := [⟨[1, 2, 0], #[]⟩, ⟨[1, 1, 0, 0], #[]⟩, ⟨[1, 2, 0, 2, 0, 0], #[]⟩]

/-- They stand behind a schema without fields, and a byte stands behind the end. -/
def mixture : Bytes := bare [1, 1, 0, 0] ++ (mixed.flatMap (bare ·.metadata) ++ (endMarker ++ [7]))

theorem reads_apart_mixed : ∃ r, start (⟨⟨true⟩, mixture.toArray, 0⟩ : Source Hesitant) = .ok r ∧
    (r.afterReads 1).readBatch.1 = fail (.corruptStream .lateSchema) ∧
    (r.afterReads 2).readBatch.1 = .ok (some ⟨⟨[]⟩, 2, []⟩) ∧ (r.afterReads 3).batchesRead = 1 ∧
    (r.afterReads 3).readBatch.1 = .ok none ∧ (r.afterSteps 1).next?.1 = none := by
  have ahead : (⟨⟨true⟩, mixture.toArray, 0⟩ : Source Hesitant).ahead = mixture := Source.ahead_unread _ _
  have lined : Message.Lined (mixed.flatMap (bare ·.metadata) ++ (endMarker ++ [7])) mixed (endMarker ++ [7]) :=
    .cons (stands_bare (by decide) rfl _) (.cons (stands_bare (by decide) rfl _) (.cons (stands_bare (by decide) rfl _)
      (.nil _)))
  have opens : Message.Stands mixture ⟨[1, 1, 0, 0], #[]⟩ _ := stands_bare (by decide) rfl _
  have admits : ∀ m ∈ ⟨[1, 1, 0, 0], #[]⟩ :: mixed, Limits.Admits {} m.metadata.length m.body.size := by
    intro m hm
    simp only [mixed, List.mem_cons, List.not_mem_nil, or_false] at hm
    rcases hm with rfl | rfl | rfl | rfl <;> exact Limits.admits_default (by decide) (by decide)
  have carries : schemaOf (some ⟨[1, 1, 0, 0], #[]⟩) = .ok ⟨[]⟩ := rfl
  rw [← ahead] at opens
  obtain ⟨⟨r, started, -, none, -, both, -⟩, -⟩ := reads_apart Hesitant.obliging trivial opens carries lined admits
  refine ⟨r, started, ?_, ?_, ?_, ?_, ?_⟩
  · rw [(both 1).1.result]
    rfl
  · rw [(both 2).1.result]
    rfl
  · rw [(both 3).1.batchesRead, none]
    rfl
  · rw [(both 3).1.result]
    rfl
  · rw [(both 1).2.result]
    rfl

end Reader

end ColumnStream
