/-
The life of a writer, whatever its sink does. Each call sets out to put some bytes into the sink, a
message or the end marker or nothing, and some first part of them comes in. `Turn` says everything a call
can do to the writer, and `Effect` what that comes to; a `Run` is a sequence of calls, with what each of
them set out to put and what came in.
-/
import ColumnStream.Proofs.Message
import ColumnStream.Stream.Writer

namespace ColumnStream

instance (m : Message) : Decidable m.Short := inferInstanceAs (Decidable (_ < _))

namespace Writer

variable {σ : Type}

/-! ## Calls -/

inductive Call
  | write (b : Batch)
  | finish

/-- The writer takes batches: it holds its sink and has not finished. -/
structure Active (w : Writer σ) : Prop where
  finished : w.finished = false
  holdsSink : w.holdsSink = true

instance (w : Writer σ) : Decidable w.Active :=
  decidable_of_iff (w.finished = false ∧ w.holdsSink = true) ⟨fun h => ⟨h.1, h.2⟩, fun h => ⟨h.finished, h.holdsSink⟩⟩

/-- The writer gives its sink up only with finishing. -/
def Steady (w : Writer σ) : Prop := w.finished = false → w.holdsSink = true

/-- The message a batch is written as, unless it cannot be. -/
def messageOf? (b : Batch) : Option Message :=
  match b.encode with
  | .ok (metadata, body) => if Message.Short ⟨metadata, body⟩ then some ⟨metadata, body⟩ else none
  | .error _ => none

/-- The message that writing the batch sets out to put into the sink, unless it is refused. -/
def message? (w : Writer σ) (b : Batch) : Option Message :=
  if w.Active ∧ b.schema = w.schema then messageOf? b else none

/-- The bytes that a call sets out to put into the sink. -/
def due (w : Writer σ) : Call → Bytes
  | .write b => ((w.message? b).map Message.bytes).getD []
  | .finish => if w.Active then endMarker else []

theorem active_or_finished {w : Writer σ} (steady : w.Steady) : w.Active ∨ w.finished = true := by
  cases finished : w.finished with
  | true => exact .inr rfl
  | false => exact .inl ⟨finished, steady finished⟩

theorem messageOf?_of_message? {w : Writer σ} {b : Batch} {m : Message} (h : w.message? b = some m) :
    messageOf? b = some m := by
  unfold message? at h
  split at h
  · exact h
  · cases h

theorem messageOf?_some {b : Batch} {m : Message} (h : messageOf? b = some m) :
    b.encode = .ok (m.metadata, m.body) ∧ m.Short := by
  unfold messageOf? at h
  split at h
  · rename_i encoded
    split at h <;> cases h
    exact ⟨encoded, by assumption⟩
  · cases h

theorem message?_some {w : Writer σ} {b : Batch} {m : Message} (h : w.message? b = some m) :
    w.Active ∧ b.schema = w.schema ∧ b.encode = .ok (m.metadata, m.body) ∧ m.Short := by
  have ready : w.Active ∧ b.schema = w.schema := by
    unfold message? at h
    split at h
    · assumption
    · cases h
  exact ⟨ready.1, ready.2, messageOf?_some (messageOf?_of_message? h)⟩

theorem due_of_none {w : Writer σ} {b : Batch} (h : w.message? b = none) : w.due (.write b) = [] := by
  rw [due, h]
  rfl

theorem due_of_some {w : Writer σ} {b : Batch} {m : Message} (h : w.message? b = some m) :
    w.due (.write b) = m.bytes := by
  rw [due, h]
  rfl

theorem due_of_active {w : Writer σ} (h : w.Active) : w.due .finish = endMarker := by rw [due, if_pos h]

theorem due_of_finished {w : Writer σ} (h : w.finished = true) : w.due .finish = [] := by
  have passive : ¬ w.Active := fun active => by simp [active.finished] at h
  rw [due, if_neg passive]

/-! ## What a call does -/

/-- A call, how it was answered, what it set out to put into the sink, and what came in. -/
structure Event where
  call : Call
  result : Result Unit
  due : Bytes
  sent : Bytes

/-- The writers differ at most in their sinks and in how many batches they counted. -/
structure Same (w w' : Writer σ) : Prop where
  schema : w'.schema = w.schema
  finished : w'.finished = w.finished
  holdsSink : w'.holdsSink = w.holdsSink

inductive Effect (w : Writer σ) (e : Event) (w' : Writer σ) : Prop
  /-- A refused batch, or another call to finish. -/
  | idle : e.due = [] → e.sent = [] → (∀ b, e.call = .write b → e.result ≠ .ok ()) →
      (e.call = .finish → e.result = .ok () ∧ w.finished = true) → Same w w' → Effect w e w'
  | wrote {b : Batch} {m : Message} : w.Active → w.message? b = some m → e.call = .write b → e.due = m.bytes →
      e.sent = m.bytes → e.result = .ok () → Same w w' → Effect w e w'
  | tore {b : Batch} {m : Message} {missing : Bytes} : w.Active → w.message? b = some m → e.call = .write b →
      e.due = m.bytes → e.due = e.sent ++ missing → missing ≠ [] → e.result ≠ .ok () → Same w w' → Effect w e w'
  | ended : w.Active → e.call = .finish → e.due = endMarker → e.sent = endMarker → e.result = .ok () →
      w'.schema = w.schema → w'.finished = true → Effect w e w'
  /-- The end marker or the flush after it failed. -/
  | unended {missing : Bytes} : w.Active → e.call = .finish → e.due = endMarker → e.due = e.sent ++ missing →
      e.result ≠ .ok () → Same w w' → Effect w e w'

theorem Active.steady {w : Writer σ} (h : w.Active) : w.Steady := fun _ => h.holdsSink

theorem Effect.steady {w w' : Writer σ} {e : Event} (steady : w.Steady) (h : Effect w e w') : w'.Steady := by
  have kept (same : Same w w') : w'.Steady := by
    intro active
    rw [same.holdsSink]
    exact steady (same.finished ▸ active)
  cases h with
  | idle _ _ _ _ same => exact kept same
  | wrote _ _ _ _ _ _ same => exact kept same
  | tore _ _ _ _ _ _ _ same => exact kept same
  | ended _ _ _ _ _ _ finished => exact fun active => by rw [finished] at active; cases active
  | unended _ _ _ _ _ same => exact kept same

theorem Same.active {w w' : Writer σ} (same : Same w w') (h : w.Active) : w'.Active :=
  ⟨same.finished.trans h.finished, same.holdsSink.trans h.holdsSink⟩

/-! ## Nothing else can come of a call -/

variable [Device σ]

def call (w : Writer σ) : Call → Result Unit × Writer σ
  | .write b => w.writeBatch b
  | .finish => w.finish

structure Step (w : Writer σ) (e : Event) (w' : Writer σ) : Prop where
  call : w.call e.call = (e.result, w')
  due : e.due = w.due e.call
  sent : w'.sink.content = w.sink.content ++ e.sent

theorem writeBatch_of_finished {w : Writer σ} (h : w.finished = true) (b : Batch) :
    w.writeBatch b = (fail .writerClosed, w) := by
  rw [writeBatch, if_pos h]

theorem writeBatch_of_none {w : Writer σ} {b : Batch} (steady : w.Steady) (none : w.message? b = none) :
    ∃ e, w.writeBatch b = (.error e, w) := by
  rcases active_or_finished steady with active | finished
  · by_cases schema : b.schema = w.schema
    · rw [message?, if_pos ⟨active, schema⟩, messageOf?] at none
      rw [writeBatch, if_neg (by simp [active.finished]), if_neg (by simp [schema]), if_pos active.holdsSink]
      cases encoded : b.encode with
      | error e => exact ⟨e, rfl⟩
      | ok parts =>
        rw [encoded] at none
        simp only at none
        split at none
        · cases none
        · rename_i long
          exact ⟨_, by simp only; rw [Sink.writeMessage_of_long long]; rfl⟩
    · exact ⟨_, by rw [writeBatch, if_neg (by simp [active.finished]), if_pos schema]; rfl⟩
  · exact ⟨_, writeBatch_of_finished finished b⟩

theorem writeBatch_of_some {w : Writer σ} {b : Batch} {m : Message} (h : w.message? b = some m) :
    w.writeBatch b = match w.sink.writeMessage m with
      | (.error e, sink) => (.error e, { w with sink })
      | (.ok _, sink) => (.ok (), { w with sink, batchesWritten := w.batchesWritten + 1 }) := by
  obtain ⟨active, schema, encoded, -⟩ := message?_some h
  rw [writeBatch, if_neg (by simp [active.finished]), if_neg (by simp [schema]), if_pos active.holdsSink]
  generalize b.encode = parts at encoded ⊢
  subst encoded
  rfl

theorem finish_of_active {w : Writer σ} (h : w.Active) :
    w.finish = match w.sink.writeEnd with
      | (.error e, sink) => (.error e, { w with sink })
      | (.ok _, sink) =>
        match sink.flush with
        | (.error e, sink) => (.error e, { w with sink })
        | (.ok (), sink) => (.ok (), { w with sink, finished := true, holdsSink := w.leaveOpen }) := by
  unfold finish
  exact (if_neg (by simp [h.finished])).trans (if_pos h.holdsSink)

theorem finish_of_finished {w : Writer σ} (h : w.finished = true) : w.finish = (.ok (), w) := by
  rw [finish, if_pos h]

/-- A writer that has finished stays as it is, its device too. -/
theorem call_of_finished {w : Writer σ} (h : w.finished = true) (c : Call) : (w.call c).2 = w := by
  cases c with
  | write b => rw [call, writeBatch_of_finished h]
  | finish => rw [call, finish_of_finished h]

/-- How a call is answered, what it changes in the writer, and what comes into its sink. -/
inductive Turn (w : Writer σ) : Call → Result Unit × Writer σ → Prop
  | refused {b : Batch} {e : Failure} : w.message? b = none → (w.finished = true → e = .error .writerClosed) →
      Turn w (.write b) (.error e, w)
  | broken {b : Batch} {m : Message} {cause : DeviceError} {sink : Sink σ} {sent missing : Bytes} :
      w.message? b = some m → m.bytes = sent ++ missing → missing ≠ [] → sink.content = w.sink.content ++ sent →
      Turn w (.write b) (fail (.device cause), { w with sink })
  | wrote {b : Batch} {m : Message} {sink : Sink σ} : w.message? b = some m →
      sink.content = w.sink.content ++ m.bytes →
      Turn w (.write b) (.ok (), { w with sink, batchesWritten := w.batchesWritten + 1 })
  | idle : w.finished = true → Turn w .finish (.ok (), w)
  /-- The marker may be in the sink when the flush fails. -/
  | unended {cause : DeviceError} {sink : Sink σ} {sent missing : Bytes} : w.Active → endMarker = sent ++ missing →
      sink.content = w.sink.content ++ sent → Turn w .finish (fail (.device cause), { w with sink })
  | ended {sink : Sink σ} : w.Active → sink.content = w.sink.content ++ endMarker →
      Turn w .finish (.ok (), { w with sink, finished := true, holdsSink := w.leaveOpen })

theorem turn_write {w : Writer σ} (steady : w.Steady) (b : Batch) : Turn w (.write b) (w.writeBatch b) := by
  cases found : w.message? b with
  | none =>
    by_cases finished : w.finished = true
    · rw [writeBatch_of_finished finished]
      exact .refused found fun _ => rfl
    · obtain ⟨e, refused⟩ := writeBatch_of_none steady found
      rw [refused]
      exact .refused found fun closed => absurd closed finished
  | some m =>
    obtain ⟨-, -, -, short⟩ := message?_some found
    have put := w.sink.writeMessage_puts short
    rw [writeBatch_of_some found]
    generalize w.sink.writeMessage m = out at put
    cases put with
    | all n content => exact .wrote found content
    | torn cause split some content => exact .broken found split some content

theorem turn_finish {w : Writer σ} (steady : w.Steady) : Turn w .finish w.finish := by
  rcases active_or_finished steady with active | finished
  · rw [finish_of_active active]
    have put := w.sink.writeEnd_puts
    generalize w.sink.writeEnd = out at put
    cases put with
    | torn cause split some content => exact .unended active split content
    | @all sink n content =>
      have kept := sink.content_flush
      rcases sink.flush_cases with ⟨sink', flushed⟩ | ⟨cause, sink', failed⟩
      · simp only [flushed] at kept ⊢
        exact .ended active (kept.trans content)
      · simp only [failed] at kept ⊢
        exact .unended active (List.append_nil _).symm (kept.trans content)
  · rw [finish_of_finished finished]
    exact .idle finished

/-- There are no other turns. -/
theorem turn {w : Writer σ} (steady : w.Steady) (c : Call) : Turn w c (w.call c) := by
  cases c with
  | write b => exact turn_write steady b
  | finish => exact turn_finish steady

omit [Device σ] in
theorem Turn.grows {w : Writer σ} {c : Call} {out : Result Unit × Writer σ} (h : Turn w c out) :
    ∃ sent, out.2.sink.content = w.sink.content ++ sent := by
  cases h with
  | refused _ _ => exact ⟨[], (List.append_nil _).symm⟩
  | broken _ _ _ content => exact ⟨_, content⟩
  | wrote _ content => exact ⟨_, content⟩
  | idle _ => exact ⟨[], (List.append_nil _).symm⟩
  | unended _ _ content => exact ⟨_, content⟩
  | ended _ content => exact ⟨_, content⟩

theorem Step.effect {w w' : Writer σ} {e : Event} (steady : w.Steady) (h : Step w e w') : Effect w e w' := by
  have turned := turn steady e.call
  rw [h.call] at turned
  obtain ⟨c, result, due, sent⟩ := e
  obtain ⟨-, due_eq, grown⟩ := h
  -- A step says what came in by what the sink holds, which leaves no choice.
  have sent_eq {x : Bytes} (content : w'.sink.content = w.sink.content ++ x) : sent = x := by
    rw [grown] at content
    exact List.append_cancel_left content
  cases turned with
  | refused found _ =>
    exact .idle (due_eq.trans (due_of_none found)) (sent_eq (List.append_nil _).symm) (fun _ _ h => nomatch h)
      (fun h => nomatch h) ⟨rfl, rfl, rfl⟩
  | broken found split some content =>
    have due_m := due_eq.trans (due_of_some found)
    obtain rfl := sent_eq content
    exact .tore (message?_some found).1 found rfl due_m (due_m.trans split) some (fun h => nomatch h) ⟨rfl, rfl, rfl⟩
  | wrote found content =>
    exact .wrote (message?_some found).1 found rfl (due_eq.trans (due_of_some found)) (sent_eq content) rfl
      ⟨rfl, rfl, rfl⟩
  | idle finished =>
    exact .idle (due_eq.trans (due_of_finished finished)) (sent_eq (List.append_nil _).symm) (fun _ h => nomatch h)
      (fun _ => ⟨rfl, finished⟩) ⟨rfl, rfl, rfl⟩
  | unended active split content =>
    have due_end := due_eq.trans (due_of_active active)
    obtain rfl := sent_eq content
    exact .unended active rfl due_end (due_end.trans split) (fun h => nomatch h) ⟨rfl, rfl, rfl⟩
  | ended active content =>
    exact .ended active rfl (due_eq.trans (due_of_active active)) (sent_eq content) rfl rfl rfl

/-! ## Runs -/

inductive Run : Writer σ → List Event → Writer σ → Prop
  | nil (w : Writer σ) : Run w [] w
  | cons {w w' w'' : Writer σ} {e : Event} {log : List Event} : Step w e w' → Run w' log w'' → Run w (e :: log) w''

/-- The batches that were accepted. -/
def acknowledged : List Event → List Batch
  | [] => []
  | ⟨.write b, .ok (), _, _⟩ :: log => b :: acknowledged log
  | _ :: log => acknowledged log

theorem acknowledged_cons_of_ok {e : Event} {b : Batch} (call : e.call = .write b) (accepted : e.result = .ok ())
    (log : List Event) : acknowledged (e :: log) = b :: acknowledged log := by
  obtain ⟨c, result, due, sent⟩ := e
  obtain rfl : c = .write b := call
  obtain rfl : result = .ok () := accepted
  rfl

theorem acknowledged_cons_of_refused {e : Event} (refused : ∀ b, e.call = .write b → e.result ≠ .ok ())
    (log : List Event) : acknowledged (e :: log) = acknowledged log := by
  obtain ⟨c, result, due, sent⟩ := e
  cases c with
  | finish => rfl
  | write b =>
    cases result with
    | ok _ => exact absurd rfl (refused b rfl)
    | error _ => rfl

theorem acknowledged_cons_of_finish {e : Event} (finish : e.call = .finish) (log : List Event) :
    acknowledged (e :: log) = acknowledged log := by
  refine acknowledged_cons_of_refused (fun b write => ?_) log
  rw [finish] at write
  cases write

theorem acknowledged_append (log log' : List Event) :
    acknowledged (log ++ log') = acknowledged log ++ acknowledged log' := by
  induction log with
  | nil => rfl
  | cons e log ih =>
    rw [List.cons_append]
    by_cases accepted : ∃ b, e.call = .write b ∧ e.result = .ok ()
    · obtain ⟨b, call, accepted⟩ := accepted
      rw [acknowledged_cons_of_ok call accepted, acknowledged_cons_of_ok call accepted, ih, List.cons_append]
    · have refused : ∀ b, e.call = .write b → e.result ≠ .ok () := fun b call ok => accepted ⟨b, call, ok⟩
      rw [acknowledged_cons_of_refused refused, acknowledged_cons_of_refused refused, ih]

theorem acknowledged_of_finish {log : List Event} (finishes : ∀ e ∈ log, e.call = .finish) : acknowledged log = [] := by
  induction log with
  | nil => rfl
  | cons e log ih =>
    obtain ⟨own, others⟩ := List.forall_mem_cons.1 finishes
    rw [acknowledged_cons_of_finish own, ih others]

/-- The bytes that came in. -/
def sent (log : List Event) : Bytes := log.flatMap (·.sent)

theorem sent_cons (e : Event) (log : List Event) : sent (e :: log) = e.sent ++ sent log := List.flatMap_cons

theorem sent_append (log log' : List Event) : sent (log ++ log') = sent log ++ sent log' := List.flatMap_append

namespace Run

variable {w w' : Writer σ} {log : List Event}

theorem content_eq (h : Run w log w') : w'.sink.content = w.sink.content ++ Writer.sent log := by
  induction h with
  | nil => exact (List.append_nil _).symm
  | cons step _ ih => rw [ih, step.sent, List.append_assoc, sent_cons]

theorem append {w'' : Writer σ} {log' : List Event} (h : Run w log w') (h' : Run w' log' w'') :
    Run w (log ++ log') w'' := by
  induction h with
  | nil => exact h'
  | cons step _ ih => exact .cons step (ih h')

theorem of_append {log' : List Event} (h : Run w (log ++ log') w') : ∃ w₁, Run w log w₁ ∧ Run w₁ log' w' := by
  induction log generalizing w with
  | nil => exact ⟨w, .nil w, h⟩
  | cons e log ih =>
    rw [List.cons_append] at h
    cases h with
    | cons step rest =>
      obtain ⟨w₁, before, after⟩ := ih rest
      exact ⟨w₁, .cons step before, after⟩

theorem eq_of_finished (h : Run w log w') (finished : w.finished = true) : w' = w := by
  induction h with
  | nil => rfl
  | @cons w w₁ w' e log step _ ih =>
    have same : w₁ = w := (congrArg Prod.snd step.call).symm.trans (call_of_finished finished e.call)
    rw [ih (same ▸ finished), same]

theorem steady (h : Run w log w') (start : w.Steady) : w'.Steady := by
  induction h with
  | nil => exact start
  | cons step _ ih => exact ih ((step.effect start).steady start)

end Run

/-- Every call is a step of some run. -/
theorem exists_step (w : Writer σ) (steady : w.Steady) (c : Call) : ∃ e w', e.call = c ∧ Step w e w' := by
  obtain ⟨sent, content⟩ := (turn steady c).grows
  exact ⟨⟨c, (w.call c).1, w.due c, sent⟩, (w.call c).2, rfl, rfl, rfl, content⟩

/-! ## The end -/

inductive Ending
  | dropped
  | taken

/-- The sink as it is left when the writer is dropped, or when its sink is taken back. -/
def close (w : Writer σ) : Ending → Sink σ
  | .dropped => w.drop
  | .taken =>
    match w.intoSink with
    | .ok sink => sink
    | .error (_, sink) => sink

/-- The calls that ending a writer comes down to. Taking the sink back drops the writer if it could not
be finished. -/
def Ending.calls : Ending → List Call
  | .dropped => [.finish]
  | .taken => [.finish, .finish]

theorem Ending.finishes {ending : Ending} {rest : List Event} (calls : rest.map (·.call) = ending.calls) :
    (∀ e ∈ rest, e.call = .finish) ∧ rest ≠ [] := by
  constructor
  · intro e he
    have member : e.call ∈ ending.calls := calls ▸ List.mem_map_of_mem he
    cases ending <;> simpa [Ending.calls] using member
  · rintro rfl
    cases ending <;> cases calls

theorem drop_withLeaveOpen (w : Writer σ) : ({ w with leaveOpen := true } : Writer σ).drop = w.drop := by
  unfold drop finish
  by_cases finished : w.finished = true
  · rw [if_pos finished, if_pos finished]
  · rw [if_neg finished, if_neg finished]
    by_cases holds : w.holdsSink = true
    · rw [if_pos holds, if_pos holds]
      simp only
      split
      · rfl
      · split <;> rfl
    · rw [if_neg holds, if_neg holds]

theorem close_taken {w : Writer σ} (steady : w.Steady) : w.close .taken = w.finish.2.drop := by
  rw [close, intoSink]
  rcases active_or_finished steady with active | finished
  · have active' : ({ w with leaveOpen := true } : Writer σ).Active := ⟨active.finished, active.holdsSink⟩
    rw [if_neg (by simp [active.finished]), finish_of_active active, finish_of_active active']
    simp only
    cases w.sink.writeEnd with
    | mk result sink =>
      cases result with
      | error e => exact drop_withLeaveOpen { w with sink }
      | ok n =>
        simp only
        cases sink.flush with
        | mk result sink =>
          cases result with
          | error e => exact drop_withLeaveOpen { w with sink }
          | ok _ => simp [drop, finish]
  · rw [if_pos finished, finish_of_finished finished]
    simp only [drop, finish_of_finished finished]
    cases w.holdsSink <;> rfl

theorem close_of_finished {w : Writer σ} (finished : w.finished = true) (ending : Ending) :
    w.close ending = w.sink := by
  have dropped : w.drop = w.sink := by rw [drop, finish_of_finished finished]
  cases ending with
  | dropped => exact dropped
  | taken =>
    have steady : w.Steady := fun active => by simp [finished] at active
    rw [close_taken steady, finish_of_finished finished, dropped]

theorem close_eq {w w' : Writer σ} {log : List Event} {ending : Ending} (steady : w.Steady) (h : Run w log w')
    (calls : log.map (·.call) = ending.calls) : w.close ending = w'.sink := by
  have finish {w w' : Writer σ} {e : Event} (h : Step w e w') (call : e.call = .finish) : w' = w.finish.2 := by
    have ran := h.call
    rw [call] at ran
    exact (congrArg Prod.snd ran).symm
  cases ending with
  | dropped =>
    obtain ⟨e, rfl, call⟩ := List.map_eq_singleton_iff.1 calls
    cases h with
    | cons step rest =>
      cases rest
      rw [finish step call]
      rfl
  | taken =>
    obtain ⟨e, log, rfl, call, calls⟩ := List.map_eq_cons_iff.1 calls
    obtain ⟨e', rfl, call'⟩ := List.map_eq_singleton_iff.1 calls
    cases h with
    | cons step rest =>
      cases rest with
      | cons step' rest =>
        cases rest
        rw [close_taken steady, finish step' call', finish step call]
        rfl

/-! ## The start -/

theorem start_ok {schema : Schema} {sink : Sink σ} {leaveOpen : Bool} {w : Writer σ}
    (h : start schema sink leaveOpen = .ok w) :
    ∃ metadata, schema.encode = .ok metadata ∧ Message.Short ⟨metadata, #[]⟩ ∧ w.schema = schema ∧ w.Active ∧
      w.sink.content = sink.content ++ Message.bytes ⟨metadata, #[]⟩ := by
  unfold start at h
  split at h
  · cases h
  · rename_i metadata encoded
    by_cases short : Message.Short ⟨metadata, #[]⟩
    · have put := sink.writeMessage_puts short
      split at h <;> rename_i ran <;> rw [ran] at put <;> cases h
      exact ⟨metadata, encoded, short, rfl, ⟨rfl, rfl⟩, put.content_eq⟩
    · rw [Sink.writeMessage_of_long short] at h
      cases h

end Writer

end ColumnStream
