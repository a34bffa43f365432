/-
How often a stream is ended, when no write fails for good. The end marker is written before the sink is
flushed, and a flush that fails leaves the writer as it was, so that the next attempt writes another
marker. A stream is as it should be just when no attempt but the last one failed.
-/
import ColumnStream.Proofs.Stream.RoundTrip
import ColumnStream.Transport.Script

namespace ColumnStream

theorem Sink.device_flush {σ : Type} [Device σ] (s : Sink σ) : s.flush.2.device = (Device.flush s.device).2 := by
  unfold flush
  split <;> rename_i ran <;> rw [ran]

namespace Writer

variable {σ : Type} [Device σ] {w w' : Writer σ}

/-! ## Sinks that only fail to flush -/

section

variable {ready : σ → Prop} (obliging : Device.Obliging ready) (lasting : ∀ s, ready s → ready (Device.flush s).2)
include obliging lasting

/-- Where no write fails for good, all that a call sets out to put into the sink comes in. -/
theorem Step.whole (steady : w.Steady) {e : Event} (step : Step w e w') (h : ready w.sink.device) :
    e.sent = e.due ∧ ready w'.sink.device := by
  obtain ⟨c, result, due, sent⟩ := e
  obtain ⟨call, due_eq, content⟩ := step
  simp only at call due_eq content
  have sent_eq {x : Bytes} (h : w'.sink.content = w.sink.content ++ x) : sent = x :=
    List.append_cancel_left (content.symm.trans h)
  cases c with
  | write b =>
    simp only [Writer.call] at call
    cases found : w.message? b with
    | none =>
      obtain ⟨cause, refused⟩ := writeBatch_of_none steady found
      rw [refused] at call
      cases call
      exact ⟨by rw [due_eq, due_of_none found]; exact sent_eq (List.append_nil _).symm, h⟩
    | some m =>
      have short := (message?_some found).2.2.2
      obtain ⟨sink, ready', ran⟩ := Sink.writeMessage_obliging obliging short w.sink h
      have put := w.sink.writeMessage_puts short
      rw [ran] at put
      rw [writeBatch_of_some found, ran] at call
      cases call
      exact ⟨by rw [due_eq, due_of_some found]; exact sent_eq put.content_eq, ready'⟩
  | finish =>
    simp only [Writer.call] at call
    rcases active_or_finished steady with active | finished
    · obtain ⟨sink, ready', ran⟩ := Sink.writeEnd_obliging obliging w.sink h
      have put := w.sink.writeEnd_puts
      rw [ran] at put
      -- The flush decides how the call is answered, but not what is in the sink.
      have flushed := sink.content_flush.trans put.content_eq
      have after := lasting _ ready'
      rw [← Sink.device_flush] at after
      rw [finish_of_active active, ran] at call
      simp only at call
      split at call <;> rename_i answered <;> rw [answered] at flushed after <;> cases call <;>
        exact ⟨by rw [due_eq, due_of_active active]; exact sent_eq flushed, after⟩
    · rw [finish_of_finished finished] at call
      cases call
      exact ⟨by rw [due_eq, due_of_finished finished]; exact sent_eq (List.append_nil _).symm, h⟩

theorem Run.whole {log : List Event} (steady : w.Steady) (h : Run w log w') (start : ready w.sink.device) :
    ∀ e ∈ log, e.sent = e.due := by
  induction h with
  | nil => simp
  | cons step _ ih =>
    obtain ⟨own, next⟩ := step.whole obliging lasting steady start
    exact List.forall_mem_cons.2 ⟨own, ih ((step.effect steady).steady steady) next⟩

end

/-! ## How often the stream is ended -/

/-- Every attempt to finish succeeded. -/
def FinishesWell (log : List Event) : Prop := ∀ e ∈ log, e.call = .finish → e.result = .ok ()

/-- A writer that finished puts nothing more into its sink. -/
theorem Run.of_finished {log : List Event} (finished : w.finished = true) (h : Run w log w') :
    Writer.sent log = [] ∧ acknowledged log = [] ∧ FinishesWell log ∧ w'.finished = true := by
  induction h with
  | nil => exact ⟨rfl, rfl, by simp [FinishesWell], finished⟩
  | @cons w w₁ w₂ e log step _ ih =>
    have passive : ¬ w.Active := fun active => by simp [active.finished] at finished
    cases step.effect fun active => by simp [active] at finished with
    | idle due sent refused again same =>
      obtain ⟨silent, none, well, finished'⟩ := ih (same.finished.trans finished)
      refine ⟨?_, (acknowledged_cons_of_refused refused log).trans none, ?_, finished'⟩
      · rw [sent_cons, sent, List.nil_append]
        exact silent
      · exact List.forall_mem_cons.2 ⟨fun call => (again call).1, well⟩
    | wrote active => exact absurd active passive
    | tore active => exact absurd active passive
    | ended active => exact absurd active passive
    | unended active => exact absurd active passive

/-- With every attempt to finish but the last going well the stream has its end marker right after the
batches; otherwise there is one more of them at least. -/
theorem Run.sent_eq {log : List Event} {last : Event} (h : Run w (log ++ [last]) w') (active : w.Active)
    (finish : last.call = .finish) (whole : ∀ e ∈ log ++ [last], e.sent = e.due) :
    ∃ ms, List.Forall₂ (fun m b => messageOf? b = some m ∧ b.schema = w.schema) ms (acknowledged (log ++ [last])) ∧
      (FinishesWell log → Writer.sent (log ++ [last]) = ms.flatMap Message.bytes ++ endMarker) ∧
      (¬ FinishesWell log →
        (ms.flatMap Message.bytes).length + 2 * endMarker.length ≤ (Writer.sent (log ++ [last])).length) := by
  induction log generalizing w with
  | nil =>
    cases h with
    | cons step rest =>
      cases rest
      have own : last.sent = endMarker := by
        rw [whole last (by simp), step.due, finish, due_of_active active]
      have none : acknowledged [last] = [] := acknowledged_cons_of_finish finish []
      refine ⟨[], by rw [List.nil_append, none]; exact .nil, fun _ => ?_, fun ill => ?_⟩
      · simp [Writer.sent, own]
      · exact absurd (by simp [FinishesWell]) ill
  | cons e log ih =>
    rw [List.cons_append] at h whole
    cases h with
    | @cons _ w₁ _ _ _ step rest =>
      obtain ⟨own, others⟩ := List.forall_mem_cons.1 whole
      have total : Writer.sent (e :: log ++ [last]) = e.sent ++ Writer.sent (log ++ [last]) := sent_cons ..
      have wellCons : FinishesWell (e :: log) ↔ (e.call = .finish → e.result = .ok ()) ∧ FinishesWell log :=
        List.forall_mem_cons
      cases step.effect active.steady with
      | idle due sent refused again same =>
        obtain ⟨ms, each, well, ill⟩ := ih rest (same.active active) others
        have write : e.call ≠ .finish := fun call => by
          have finished := (again call).2
          rw [active.finished] at finished
          cases finished
        rw [total, sent, List.nil_append, List.cons_append, acknowledged_cons_of_refused refused, wellCons]
        exact ⟨ms, same.schema ▸ each, fun h => well h.2,
          fun h => ill fun later => h ⟨fun call => absurd call write, later⟩⟩
      | @wrote b m _ found command due sent accepted same =>
        obtain ⟨ms, each, well, ill⟩ := ih rest (same.active active) others
        have first : messageOf? b = some m ∧ b.schema = w.schema :=
          ⟨messageOf?_of_message? found, (message?_some found).2.1⟩
        rw [total, sent, List.cons_append, acknowledged_cons_of_ok command accepted, wellCons]
        refine ⟨m :: ms, .cons first (same.schema ▸ each), fun h => ?_, fun h => ?_⟩
        · rw [well h.2, List.flatMap_cons, List.append_assoc]
        · have := ill fun later => h ⟨fun _ => accepted, later⟩
          rw [List.flatMap_cons, List.length_append, List.length_append]
          omega
      | tore _ found command due split some refused same =>
        rw [own] at split
        exact absurd (List.append_right_eq_self.1 split.symm) some
      | ended _ command due sent accepted schema finished =>
        obtain ⟨silent, none, well, -⟩ := rest.of_finished finished
        rw [total, sent, silent, List.append_nil, List.cons_append, acknowledged_cons_of_finish command, none, wellCons]
        exact ⟨[], .nil, fun _ => rfl,
          fun h => absurd ⟨fun _ => accepted, fun e he => well e (List.mem_append_left _ he)⟩ h⟩
      | unended _ command due split refused same =>
        obtain ⟨ms, each, well, ill⟩ := ih rest (same.active active) others
        rw [total, own, due, List.cons_append, acknowledged_cons_of_finish command, wellCons]
        refine ⟨ms, same.schema ▸ each, fun h => absurd (h.1 command) refused, fun _ => ?_⟩
        -- The marker of this attempt comes on top of what the later ones put into the sink.
        by_cases later : FinishesWell log
        · rw [well later, List.length_append, List.length_append]
          omega
        · have := ill later
          rw [List.length_append]
          omega

/-- The schema, the batches, and at most one end marker. -/
def EndedOnce (schema : Schema) (batches : List Batch) (stream : Bytes) : Prop :=
  ∃ metadata ms tail, schema.encode = .ok metadata ∧ List.Forall₂ (fun m b => messageOf? b = some m) ms batches ∧
    (tail = [] ∨ tail = endMarker) ∧
    stream = Message.bytes ⟨metadata, #[]⟩ ++ ms.flatMap Message.bytes ++ tail

/-- The stream of a writer none of whose writes failed for good holds the schema, then the accepted
batches, then at most one end marker, just when every attempt to finish but the last one succeeded; the
attempts made by dropping the writer and by taking its sink count. Then it can be read back. -/
theorem endedOnce_iff {τ : Type} [Device τ] {ready : τ → Prop} (obliging : Device.Obliging ready) {schema : Schema}
    {sink : Sink σ} {leaveOpen : Bool} {log rest : List Event} {last : Writer σ} {ending : Ending}
    (started : start schema sink leaveOpen = .ok w) (ran : Run w log w') (ended : Run w' rest last)
    (calls : rest.map (·.call) = ending.calls) (whole : ∀ e ∈ log ++ rest, e.sent = e.due) :
    ∃ stream, (w'.close ending).content = sink.content ++ stream ∧
      (EndedOnce schema (acknowledged log) stream ↔ FinishesWell (log ++ rest).dropLast) ∧
      (FinishesWell (log ++ rest).dropLast → ∀ (limits : Limits) (metadata : Bytes), schema.encode = .ok metadata →
        limits.Admits (padded metadata.length) 0 →
        (∀ b ∈ acknowledged log, b.Reachable ∧ b.InMemory ∧ b.FitsIn limits) →
        ∀ (source : Source τ) (further : Bytes), ready source.device → source.ahead = stream ++ further →
          ∃ r read r' done, Reader.start source limits = .ok r ∧ r.schema = schema ∧ Reader.Yields r read r' ∧
            List.Forall₂ (fun d b => Batch.equal d b = .ok true) read (acknowledged log) ∧
            r'.next? = (none, done) ∧ done.source.ahead = further) := by
  obtain ⟨metadata, accepted, short, schema_eq, active, content⟩ := start_ok started
  obtain ⟨finishes, present⟩ := Ending.finishes calls
  obtain ⟨body, final, split⟩ : ∃ body final, rest = body ++ [final] :=
    ⟨rest.dropLast, rest.getLast present, (List.dropLast_append_getLast present).symm⟩
  have total := ran.append ended
  have regroup : log ++ rest = (log ++ body) ++ [final] := by rw [split, List.append_assoc]
  have result : (w'.close ending).content =
      sink.content ++ (Message.bytes ⟨metadata, #[]⟩ ++ Writer.sent (log ++ rest)) := by
    rw [close_eq (ran.steady active.steady) ended calls, total.content_eq, content, List.append_assoc]
  rw [regroup] at total whole
  obtain ⟨ms, each, well, ill⟩ := total.sent_eq active (finishes final (by simp [split])) whole
  rw [← regroup] at each well ill
  rw [acknowledged_append, acknowledged_of_finish finishes, List.append_nil] at each
  have due : List.Forall₂ (fun m b => messageOf? b = some m) ms (acknowledged log) := each.imp fun _ _ => And.left
  have functional : Relator.LeftUnique fun (m : Message) b => messageOf? b = some m := fun _ _ _ h h' =>
    Option.some.inj (h.symm.trans h')
  rw [regroup, List.dropLast_concat]
  refine ⟨_, result, ⟨fun once => ?_, fun h => ?_⟩,
    fun h limits metadata' accepted' admits fits source further go next => ?_⟩
  · obtain ⟨metadata', ms', tail, accepted', due', most, same⟩ := once
    obtain rfl : metadata' = metadata := Except.ok.inj (accepted'.symm.trans accepted)
    obtain rfl : ms' = ms := List.left_unique_forall₂' functional due' due
    by_contra some
    have room : tail.length ≤ endMarker.length := by
      rcases most with rfl | rfl <;> decide
    have positive : 0 < endMarker.length := by decide
    have lengths := congrArg List.length same
    have more := ill some
    simp only [List.length_append] at lengths
    omega
  · refine ⟨metadata, ms, endMarker, accepted, due, .inr rfl, ?_⟩
    rw [well h, List.append_assoc]
  · obtain rfl : metadata' = metadata := Except.ok.inj (accepted'.symm.trans accepted)
    obtain ⟨ms', both, within⟩ := exists_messages fits
    obtain rfl : ms' = ms := List.left_unique_forall₂' functional (both.imp fun _ _ => And.left) due
    have schemas : ∀ b ∈ acknowledged log, b.schema = schema :=
      ((List.forall₂_and_left _ _).1 (each.flip.imp fun _ _ h => ⟨h.2.trans schema_eq, h.1⟩)).1
    obtain ⟨r, read, r', done, opened, found, yields, equal, over', -, left, -⟩ :=
      Reader.read_stream obliging accepted short admits (both.imp fun _ _ => And.right) schemas within go
        (by rw [well h, List.append_assoc]) next
    exact ⟨r, read, r', done, opened, found, yields, equal, over', left⟩

/-! ## A sink whose first flush fails -/

/-- An empty sink that takes everything, but fails its first flush. -/
def unflushed : Sink Script := ⟨{ failingFlushes := 1 }, #[], 0⟩

/-- No write will meet a fault or be cut. -/
def Faultless (s : Script) : Prop := s.planned = [] ∧ s.chunk = none

theorem faultless_obliging : Device.Obliging Faultless := by
  constructor
  rintro ⟨_, _, failing⟩ position count ⟨rfl, rfl⟩ some
  refine ⟨{ failingFlushes := failing }, ⟨rfl, rfl⟩, .inl ⟨count, some, ?_⟩⟩
  simp [Device.transfer, Script.transfer, Script.share]

theorem faultless_lasting (s : Script) (h : Faultless s) : Faultless (Device.flush s).2 := by
  obtain ⟨_, _, failing⟩ := s
  cases failing <;> exact h

/-- The writer is dropped after its only attempt to finish failed. -/
theorem not_endedOnce_unflushed : ∃ w stream, start ⟨[]⟩ unflushed = .ok w ∧ w.finish.1 = fail (.device .other) ∧
    (w.finish.2.close .dropped).content = stream ∧ ¬ EndedOnce ⟨[]⟩ [] stream := by
  obtain ⟨w, started, refused, faultless⟩ : ∃ w, start ⟨[]⟩ unflushed = .ok w ∧
      w.finish.1 = fail (.device .other) ∧ Faultless w.sink.device := ⟨_, by cbv, by cbv, rfl, rfl⟩
  obtain ⟨-, -, -, -, active, -⟩ := start_ok started
  obtain ⟨⟨_, result, due, sent⟩, w', rfl, step⟩ := exists_step w active.steady .finish
  obtain ⟨⟨_, result', due', sent'⟩, last, rfl, step'⟩ :=
    exists_step w' ((step.effect active.steady).steady active.steady) .finish
  have ran := Run.cons step (.nil w')
  have ended := Run.cons step' (.nil last)
  obtain ⟨stream, content, once, -⟩ := endedOnce_iff Hesitant.obliging started ran ended
    (show _ = Ending.dropped.calls from rfl)
    ((ran.append ended).whole faultless_obliging faultless_lasting active.steady faultless)
  obtain rfl : w' = w.finish.2 := (congrArg Prod.snd step.call).symm
  have failed : result = fail (.device .other) := (congrArg Prod.fst step.call).symm.trans refused
  refine ⟨w, stream, started, refused, content, fun h => ?_⟩
  have well := once.1 h _ (List.mem_cons_self ..) rfl
  rw [failed] at well
  cases well

/-- Two rows without columns. -/
def twoRows : Batch := ⟨⟨[]⟩, 2, []⟩

/-- A batch that is accepted after a flush failed stands between two end markers, where no reader comes. -/
theorem accepted_behind_end : ∃ w w' stream, start ⟨[]⟩ unflushed = .ok w ∧ w.finish.1 = fail (.device .other) ∧
    w.finish.2.writeBatch twoRows = (.ok (), w') ∧ (w'.close .dropped).content = stream ∧
    ¬ EndedOnce ⟨[]⟩ [twoRows] stream ∧
    ∃ r r', Reader.start (⟨⟨true⟩, stream.toArray, 0⟩ : Source Hesitant) = .ok r ∧ r.next? = (none, r') := by
  have schema : Schema.encode ⟨[]⟩ = .ok [1, 1, 0, 0] := by cbv
  have batch : messageOf? twoRows = some ⟨[1, 2, 0, 2, 0, 0], #[]⟩ := by cbv
  refine ⟨_, _, Message.bytes ⟨[1, 1, 0, 0], #[]⟩ ++
    (endMarker ++ (Message.bytes ⟨[1, 2, 0, 2, 0, 0], #[]⟩ ++ endMarker)), by cbv, by cbv, by cbv, by cbv, ?_, ?_⟩
  · rintro ⟨metadata, ms, tail, accepted, due, most, same⟩
    obtain rfl : metadata = [1, 1, 0, 0] := Except.ok.inj (accepted.symm.trans schema)
    cases due with
    | cons own rest =>
      cases rest
      obtain rfl := Option.some.inj (own.symm.trans batch)
      have lengths := congrArg List.length same
      rcases most with rfl | rfl <;> revert lengths <;> decide
  -- The schema is followed by the first of the end markers.
  · have opens := Message.stands_bytes (by decide) (Schema.declares schema)
      (endMarker ++ (Message.bytes ⟨[1, 2, 0, 2, 0, 0], #[]⟩ ++ endMarker))
    rw [← Source.ahead_unread (⟨true⟩ : Hesitant) (_ ++ _)] at opens
    obtain ⟨r, started, going, next, -⟩ := Reader.start_of_stands Hesitant.obliging trivial opens
      (Limits.admits_default (by decide) (by decide)) (Schema.schemaOf_eq schema _ _)
    obtain ⟨r', ended, -⟩ := Reader.next?_end Hesitant.obliging going next
    exact ⟨r, r', started, ended⟩

end Writer

end ColumnStream
