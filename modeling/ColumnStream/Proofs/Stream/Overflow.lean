/-
Lengths near the end of the word. Whoever reads a message, by itself, for its schema or for its batch, does
arithmetic past the word just where an overlong body is announced: the limit on the body is held against its
length, but the room that is made for it has the padding too. Everywhere else a body that is not there makes the
stream corrupt.
-/
import ColumnStream.Proofs.Framing
import ColumnStream.Proofs.Stream.AsyncReader
import ColumnStream.Proofs.Stream.Reader

namespace ColumnStream

/-- Reading a message by itself, starting a reader, and asking a reader for a batch. -/
inductive Attempt
  | message
  | start
  | batch (schema : Schema) (finished : Bool) (batchesRead : Nat)

namespace Attempt

variable {σ : Type} [Device σ]

/-- Whether it comes to an answer, whatever the answer is. -/
def outcome (limits : Limits) (source : Source σ) : Attempt → Result Unit
  | message => (source.readMessage limits).1.map fun _ => ()
  | start => ((Reader.start source limits).mapError (·.1)).map fun _ => ()
  | batch schema finished batchesRead =>
    (Reader.readBatch ⟨source, schema, limits, finished, batchesRead⟩).1.map fun _ => ()

/-- The same of a source that is awaited. -/
def awaited (limits : Limits) (source : Source σ) : Attempt → Result Unit
  | message => (source.receiveMessage limits).1.map fun _ => ()
  | start => ((AsyncReader.start source limits).mapError (·.1)).map fun _ => ()
  | batch schema finished _ => (AsyncReader.readBatch ⟨source, schema, limits, finished⟩).1.map fun _ => ()

/-- A reader that has finished reads nothing. -/
def Reads : Attempt → Prop
  | batch _ finished _ => finished = false
  | _ => True

theorem awaited_cases (limits : Limits) (source : Source σ) (a : Attempt) :
    a.awaited limits source = a.outcome limits source ∨ a.awaited limits source = fail (.device .interrupted) := by
  cases a with
  | message =>
    have read := Source.receiveMessage_alike Device.steady_any (s := source) trivial limits
    rw [awaited, outcome]
    rcases read.cases_answer with same | interrupted
    · exact .inl (by rw [same])
    · exact .inr (by rw [interrupted]; rfl)
  | start =>
    have begun : Begun _ _ (AsyncReader.start source limits) (Reader.start source limits) :=
      AsyncReader.start_begun Device.steady_any trivial limits
    rw [awaited, outcome]
    generalize AsyncReader.start source limits = awaited, Reader.start source limits = blocking at begun
    cases begun with
    | same => exact .inl rfl
    | refused e => exact .inl rfl
    | interrupted => exact .inr rfl
  | batch schema finished batchesRead =>
    have mirrors : AsyncReader.Mirrors (fun _ => True) ⟨source, schema, limits, finished⟩
        ⟨source, schema, limits, finished, batchesRead⟩ := ⟨rfl, rfl, rfl, rfl, trivial⟩
    have read := mirrors.readBatch Device.steady_any
    rw [awaited, outcome]
    rcases read.cases_answer with same | interrupted
    · exact .inl (by rw [same])
    · exact .inr (by rw [interrupted]; rfl)

/-- What is done with the message that was read. -/
def decoding : Attempt → Option Message → Result Unit
  | message, _ => .ok ()
  | start, first => (Reader.schemaOf first).map fun _ => ()
  | batch .., none => .ok ()
  | batch schema _ _, some m => (Reader.batchOf schema m).map fun _ => ()

theorem outcome_eq (limits : Limits) (source : Source σ) {a : Attempt} (reads : a.Reads) :
    a.outcome limits source = (source.readMessage limits).1 >>= a.decoding := by
  cases a with
  | message =>
    rw [outcome]
    cases (source.readMessage limits).1 <;> rfl
  | start =>
    rw [outcome, Reader.start]
    rcases source.readMessage limits with ⟨e | first, source'⟩
    · rfl
    · simp only [ok_bind, decoding]
      cases Reader.schemaOf first <;> rfl
  | batch schema finished batchesRead =>
    rw [outcome, Reader.readBatch, if_neg (by simpa [Reads] using reads)]
    simp only
    rcases source.readMessage limits with ⟨e | none | m, source'⟩
    · rfl
    · rfl
    · simp only [ok_bind, decoding]
      cases Reader.batchOf schema m <;> rfl

theorem answers_map {α : Type} {causes : Error → Prop} {post : α → Prop} {x : Result α} (h : Answers causes post x) :
    Answers causes (fun _ => True) (x.map fun _ => ()) := by
  rcases h.cases with ⟨a, rfl, -⟩ | ⟨cause, rfl, allowed⟩
  · trivial
  · exact allowed

/-- Decoding does not pass the word. -/
theorem answers_decoding (a : Attempt) (found : Option Message) :
    Answers (fun _ => True) (fun _ => True) (a.decoding found) := by
  cases a with
  | message => trivial
  | start => exact (answers_map (Reader.answers_schemaOf found)).widen fun _ _ => trivial
  | batch schema finished batchesRead =>
    cases found with
    | none => trivial
    | some m => exact (answers_map (Reader.answers_batchOf schema m)).widen fun _ _ => trivial

/-- Whatever the source, nothing goes wrong but at an overlong body. -/
theorem overflow_of_fault {limits : Limits} (unlimited : limits.block = none) (a : Attempt)
    (source : Source σ) {f : Fault} (fault : a.outcome limits source = misuse f) :
    f = .overflow ∧ limits.Overlong source.ahead := by
  by_cases reads : a.Reads
  · rw [outcome_eq limits source reads] at fault
    rcases Source.readMessage_cases Source.fills_any unlimited (s := source) trivial with
      answers | ⟨overflow, overlong⟩
    · have all := (answers.widen fun _ _ => trivial).bind fun found _ _ => a.answers_decoding found
      rw [fault] at all
      exact all.elim
    · rw [overflow] at fault
      cases fault
      exact ⟨rfl, overlong⟩
  · -- Only a reader that has finished reads nothing, and it answers that nothing is left.
    cases a with
    | message => exact absurd trivial reads
    | start => exact absurd trivial reads
    | batch schema finished batchesRead =>
      rw [outcome, Reader.readBatch, if_pos (by simpa [Reads] using reads)] at fault
      cases fault

section

variable {ready : σ → Prop} (obliging : Device.Obliging ready) {limits : Limits} (unlimited : limits.block = none)
include obliging unlimited

theorem overflow_of_overlong {source : Source σ} (h : ready source.device) (overlong : limits.Overlong source.ahead)
    {a : Attempt} (reads : a.Reads) : a.outcome limits source = misuse .overflow := by
  obtain ⟨metadata, n, rest, announces, fits, admitted, long⟩ := overlong
  have holds : limits.Holds metadata.length := Limits.holds_of_le unlimited announces.metadata_room
  obtain ⟨s', -, -, -, ran⟩ := Source.readMessage_of_announces obliging h announces fits holds admitted
  have refused : s'.readSection limits .body n = (misuse .overflow, s') := by
    rw [Source.readSection, limits.room_of_overlong long]
    rfl
  rw [outcome_eq limits source reads, ran, refused]
  rfl

theorem corrupt_of_lacking (ending : Device.Ending ready) {source : Source σ} (h : ready source.device)
    {metadata rest : Bytes} {n : Nat} (announces : Message.Announces source.ahead metadata n rest)
    (lacking : rest.length < padded n) (short : ¬ limits.Overlong source.ahead) {a : Attempt} (reads : a.Reads) :
    ∃ problem, a.outcome limits source = fail (.corruptStream problem) := by
  have agrees := Source.agrees_of_not_overlong obliging ending unlimited h short
  rw [Limits.reading_of_lacking announces lacking] at agrees
  obtain ⟨problem, ran⟩ := agrees
  refine ⟨problem, ?_⟩
  rw [outcome_eq limits source reads, ran]
  rfl

omit obliging in
/-- Whatever the source, awaited or not, nothing goes wrong but at an overlong body. There it does go wrong if the
source delivers its bytes, and a body that is not there makes the stream corrupt everywhere else. -/
theorem overflow_iff_overlong (a : Attempt) :
    (∀ (source : Source σ) f, a.outcome limits source = misuse f ∨ a.awaited limits source = misuse f →
      f = .overflow ∧ limits.Overlong source.ahead) ∧
    (Device.Obliging ready → Device.Ending ready → a.Reads → ∀ source : Source σ, ready source.device →
      (a.outcome limits source = misuse .overflow ↔ limits.Overlong source.ahead) ∧
      ∀ metadata n rest, Message.Announces source.ahead metadata n rest → rest.length < padded n →
        ¬ limits.Overlong source.ahead → ∃ problem, a.outcome limits source = fail (.corruptStream problem)) := by
  constructor
  · rintro source f (fault | fault)
    · exact overflow_of_fault unlimited a source fault
    · rcases a.awaited_cases limits source with same | interrupted
      · exact overflow_of_fault unlimited a source (same ▸ fault)
      · rw [interrupted] at fault
        cases fault
  · intro obliging ending reads source h
    constructor
    · exact ⟨fun fault => (overflow_of_fault unlimited a source fault).2,
        fun overlong => overflow_of_overlong obliging unlimited h overlong reads⟩
    · intro metadata n rest announces lacking short
      exact corrupt_of_lacking obliging unlimited ending h announces lacking short reads

end

/-! ### The largest body -/

/-- The limits with which a body of any length is admitted. -/
def anything : Limits := { maxMetadata := wordSize - 1, maxBody := wordSize - 1, block := none }

/-- The prelude of a schema message that announces the largest body that can be spelled. -/
def largest : Bytes := metadataVersion :: 1 :: (List.replicate 9 0xFF ++ [1])

/-- A message that ends with its metadata. -/
def unbodied : Bytes := continuation ++ [12, 0, 0, 0] ++ (largest ++ Bytes.zeros 4)

def bodiless : Source Hesitant := ⟨⟨true⟩, unbodied.toArray, 0⟩

theorem announces_bodiless : Message.Announces bodiless.ahead largest (wordSize - 1) [] := by
  have ahead : bodiless.ahead = unbodied := Source.ahead_unread _ _
  have prelude : Metadata.parsePrelude largest = .ok ((.schema, wordSize - 1), []) := by decide
  rw [ahead, unbodied, ← List.append_nil (_ ++ _)]
  exact .intro rfl (by decide) (by decide) prelude

theorem overlong_bodiless : anything.Overlong bodiless.ahead :=
  ⟨_, _, _, announces_bodiless, by decide, by decide, by decide⟩

theorem overflow_iff_overlong_bodiless : start.outcome anything bodiless = misuse .overflow :=
  ((overflow_iff_overlong rfl start).2 Hesitant.obliging Hesitant.ending trivial bodiless
    trivial).1.2 overlong_bodiless

/-- The largest body is not there, and the limits admit it, but the stream is not found corrupt. -/
theorem overflow_largest :
    Message.Announces bodiless.ahead largest (wordSize - 1) [] ∧ largest.length ≤ anything.maxMetadata ∧
      wordSize - 1 ≤ anything.maxBody ∧ (bodiless.readMessage anything).1 = misuse .overflow := by
  have fault : message.outcome anything bodiless = misuse .overflow :=
    overflow_of_overlong Hesitant.obliging rfl trivial overlong_bodiless trivial
  refine ⟨announces_bodiless, by decide, by decide, ?_⟩
  rcases ran : (bodiless.readMessage anything).1 with e | found
  · rw [outcome, ran] at fault
    exact congrArg Except.error (Except.error.inj fault)
  · rw [outcome, ran] at fault
    cases fault

end Attempt

end ColumnStream
