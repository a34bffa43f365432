/-
A stream copied. Whatever was done with a writer whose sink does what it is asked to, the stream it leaves is
given by the batches it accepted; a writer that takes the batches a reader brings out of this stream, under
the schema the reader found, leaves the same stream again.
-/
import ColumnStream.Proofs.Batch.Stable
import ColumnStream.Proofs.Stream.EndMarker

namespace ColumnStream

/-! ## Messages of batches -/

theorem Writer.messageOf?_of_encode {b : Batch} {m : Message} (encoded : b.encode = .ok (m.metadata, m.body))
    (short : m.Short) : messageOf? b = some m := by
  rw [messageOf?, encoded]
  exact if_pos short

/-- The message of a batch gives a batch with the same message. -/
theorem Batch.Sound.gives {b : Batch} (h : b.Sound) {m : Message} (due : Writer.messageOf? b = some m) :
    ∃ d, m.Gives b.schema d ∧ d.schema = b.schema ∧ Writer.messageOf? d = some m := by
  obtain ⟨encoded, short⟩ := Writer.messageOf?_some due
  obtain ⟨header, d, written, read, schema, again⟩ := h.encode_stable encoded
  refine ⟨d, ⟨short, Metadata.declares written rfl, fun pad => ?_⟩, schema, Writer.messageOf?_of_encode again short⟩
  rw [Reader.batchOf, Metadata.decode_encode written, ok_bind]
  exact read

namespace Writer

theorem exists_copies {schema : Schema} {ms : List Message} {bs : List Batch}
    (due : List.Forall₂ (fun m b => messageOf? b = some m ∧ b.schema = schema) ms bs) (sound : ∀ b ∈ bs, b.Sound) :
    ∃ ds, List.Forall₂ (Message.Gives schema) ms ds ∧
      List.Forall₂ (fun m d => messageOf? d = some m ∧ d.schema = schema) ms ds := by
  induction due with
  | nil => exact ⟨[], .nil, .nil⟩
  | cons first _ ih =>
    obtain ⟨found, rfl⟩ := first
    obtain ⟨own, others⟩ := List.forall_mem_cons.1 sound
    obtain ⟨d, gives, schema, again⟩ := own.gives found
    obtain ⟨ds, given, copies⟩ := ih others
    exact ⟨d :: ds, .cons gives given, .cons ⟨again, schema⟩ copies⟩

theorem admits_of_due {limits : Limits} {ms : List Message} {bs : List Batch}
    (due : List.Forall₂ (fun m b => messageOf? b = some m) ms bs) (fits : ∀ b ∈ bs, b.FitsIn limits) :
    ∀ m ∈ ms, limits.Admits (padded m.metadata.length) m.body.size := by
  induction due with
  | nil => simp
  | cons first _ ih =>
    obtain ⟨own, others⟩ := List.forall_mem_cons.1 fits
    exact List.forall_mem_cons.2 ⟨own.admits (messageOf?_some first).1, ih others⟩

/-! ## What a writer leaves -/

variable {σ : Type} [Device σ] {ready : σ → Prop}

/-- Batches that are taken one after another are a run in which all of them are accepted. -/
theorem Accepts.run {w w' : Writer σ} {bs : List Batch} (h : Accepts w bs w') (steady : w.Steady) :
    ∃ log, Run w log w' ∧ acknowledged log = bs := by
  induction h with
  | nil w => exact ⟨[], .nil w, rfl⟩
  | @cons w w₁ w₂ b bs wrote _ ih =>
    obtain ⟨⟨_, result, due, sent⟩, w₁', rfl, step⟩ := exists_step w steady (.write b)
    have called := step.call
    rw [call, wrote] at called
    cases called
    obtain ⟨log, ran, rfl⟩ := ih ((step.effect steady).steady steady)
    exact ⟨_ :: log, .cons step ran, rfl⟩

section

variable (obliging : Device.Obliging ready) (flushing : Device.Flushing ready)
include obliging flushing

theorem close_obliging {w : Writer σ} (active : w.Active) (h : ready w.sink.device) (ending : Ending) :
    (w.close ending).content = w.sink.content ++ endMarker := by
  obtain ⟨-, ⟨sink, given, content⟩, dropped⟩ := ends_obliging obliging flushing active h
  cases ending with
  | dropped => exact dropped
  | taken => rw [close, given, content]

/-- However a writer was called and in whatever way it comes to its end, it puts the messages of the batches
that it accepted into its sink, and the end marker once. -/
theorem Run.close_content {w w' : Writer σ} {log : List Event} (h : Run w log w') (active : w.Active)
    (go : ready w.sink.device) :
    ∃ ms, List.Forall₂ (fun m b => messageOf? b = some m ∧ b.schema = w.schema) ms (acknowledged log) ∧
      ∀ ending, (w'.close ending).content = w.sink.content ++ (ms.flatMap Message.bytes ++ endMarker) := by
  have lasting (s : σ) (h : ready s) : ready (Device.flush s).2 := by
    obtain ⟨s', ready', flushed⟩ := flushing s h
    rwa [flushed]
  induction h with
  | nil w => exact ⟨[], .nil, close_obliging obliging flushing active go⟩
  | @cons w w₁ w' e log step rest ih =>
    obtain ⟨whole, go₁⟩ := step.whole obliging lasting active.steady go
    have content := step.sent
    cases step.effect active.steady with
    | idle _ sent refused _ same =>
      obtain ⟨ms, each, closed⟩ := ih (same.active active) go₁
      rw [sent, List.append_nil] at content
      exact ⟨ms, by rw [acknowledged_cons_of_refused refused]; exact same.schema ▸ each, content ▸ closed⟩
    | @wrote b m _ found command _ sent accepted same =>
      obtain ⟨ms, each, closed⟩ := ih (same.active active) go₁
      refine ⟨m :: ms, ?_, fun ending => ?_⟩
      · rw [acknowledged_cons_of_ok command accepted]
        exact .cons ⟨messageOf?_of_message? found, (message?_some found).2.1⟩ (same.schema ▸ each)
      · rw [closed, content, sent, List.flatMap_cons]
        simp only [List.append_assoc]
    | tore _ _ _ _ split some =>
      rw [whole] at split
      exact absurd (List.append_right_eq_self.1 split.symm) some
    | ended _ command _ sent _ _ finished =>
      obtain ⟨silent, none, -, finished'⟩ := rest.of_finished finished
      refine ⟨[], by rw [acknowledged_cons_of_finish command, none]; exact .nil, fun ending => ?_⟩
      rw [close_of_finished finished', rest.content_eq, silent, content, sent, List.append_nil]
      rfl
    | unended _ command _ _ refused =>
      obtain ⟨sink, -, ran⟩ := finish_obliging obliging flushing active go
      have called := step.call
      rw [command, call, ran] at called
      exact absurd (congrArg Prod.fst called).symm refused

/-- A writer under the schema takes these batches and leaves just this stream. -/
theorem writes_of_due {schema : Schema} {metadata : Bytes} (accepted : schema.encode = .ok metadata)
    (short : Message.Short ⟨metadata, #[]⟩) {ms : List Message} {ds : List Batch}
    (due : List.Forall₂ (fun m d => messageOf? d = some m ∧ d.schema = schema) ms ds) (sink : Sink σ)
    (leaveOpen : Bool) (h : ready sink.device) {stream : Bytes}
    (stream_eq : stream = Message.bytes ⟨metadata, #[]⟩ ++ (ms.flatMap Message.bytes ++ endMarker)) :
    ∃ w w', start schema sink leaveOpen = .ok w ∧ Accepts w ds w' ∧
      (∃ done, w'.finish = (.ok (), done) ∧ done.sink.content = sink.content ++ stream) ∧
      ∀ ending, (w'.close ending).content = sink.content ++ stream := by
  obtain ⟨w, started, go⟩ := start_obliging obliging accepted short sink leaveOpen h
  obtain ⟨metadata', accepted', -, schema_eq, active, content⟩ := start_ok started
  obtain rfl : metadata' = metadata := Except.ok.inj (accepted'.symm.trans accepted)
  obtain ⟨schemas, due⟩ := (List.forall₂_and_left _ _).1 (due.flip.imp fun _ _ h => ⟨h.2.trans schema_eq.symm, h.1⟩)
  obtain ⟨w', wrote, active', go', content'⟩ := accepts_obliging obliging due.flip active go schemas
  have total : w'.sink.content ++ endMarker = sink.content ++ stream := by
    rw [content', content, stream_eq]
    simp only [List.append_assoc]
  obtain ⟨finished, -, -⟩ := ends_obliging obliging flushing active' go'
  have closed := close_obliging obliging flushing active' go'
  rw [total] at finished
  simp only [total] at closed
  exact ⟨w, w', started, wrote, finished, closed⟩

end

/-! ## Writing again what was read -/

/-- What was written and read is written again as it was. An encoded batch, with any padding behind its metadata,
decodes to a batch with the same encoding. The stream of a writer that was called in any way, on a sink that does
what it is asked to, is read up to its end by a reader whose limits admit its messages, and a writer that takes
the batches from this reader, under the schema it found, leaves the same stream again. -/
theorem written_again {τ υ : Type} [Device τ] [Device υ] {ready' : τ → Prop} {ready'' : υ → Prop}
    (obliging : Device.Obliging ready) (flushing : Device.Flushing ready) (obliging' : Device.Obliging ready')
    (obliging'' : Device.Obliging ready'') (flushing'' : Device.Flushing ready'') :
    (∀ b : Batch, b.Reachable → ∀ metadata body, b.encode = .ok (metadata, body) → ∀ pad,
      ∃ d, Batch.decode b.schema (metadata ++ pad) body = .ok d ∧ d.encode = .ok (metadata, body)) ∧
    ∀ (schema : Schema) (sink : Sink σ) (leaveOpen : Bool) (w w' : Writer σ) (log : List Event) (ending : Ending),
      ready sink.device → start schema sink leaveOpen = .ok w → Run w log w' →
      (∀ b ∈ acknowledged log, b.Reachable) →
      ∃ stream, (w'.close ending).content = sink.content ++ stream ∧
        ∀ (limits : Limits) (source : Source τ) (rest : Bytes),
          (∀ metadata, schema.encode = .ok metadata → limits.Admits (padded metadata.length) 0) →
          (∀ b ∈ acknowledged log, b.FitsIn limits) → ready' source.device → source.ahead = stream ++ rest →
          ∃ r read r' last, Reader.start source limits = .ok r ∧ r.schema = schema ∧ Reader.Yields r read r' ∧
            r'.next? = (none, last) ∧ last.source.ahead = rest ∧
            ∀ (sink' : Sink υ) (leaveOpen' : Bool), ready'' sink'.device →
              ∃ v v', start r.schema sink' leaveOpen' = .ok v ∧ Accepts v read v' ∧
                (∃ done, v'.finish = (.ok (), done) ∧ done.sink.content = sink'.content ++ stream) ∧
                ∀ ending', (v'.close ending').content = sink'.content ++ stream := by
  refine ⟨fun b reachable metadata body encoded pad => reachable.sound.decode_stable encoded pad, ?_⟩
  intro schema sink leaveOpen w w' log ending go started ran reachable
  obtain ⟨metadata, accepted, short, rfl, active, content⟩ := start_ok started
  obtain ⟨w₁, started', go₁⟩ := start_obliging obliging accepted short sink leaveOpen go
  obtain rfl : w₁ = w := Except.ok.inj (started'.symm.trans started)
  obtain ⟨ms, due, closed⟩ := ran.close_content obliging flushing active go₁
  obtain ⟨ds, given, copies⟩ := exists_copies due fun b hb => (reachable b hb).sound
  rw [content] at closed
  simp only [List.append_assoc] at closed
  refine ⟨_, closed ending, fun limits source rest admits fits go' next => ?_⟩
  obtain ⟨r, r', last, opened, found, yields, ended, -, left, -⟩ :=
    Reader.read_given obliging' accepted short (admits metadata accepted) given
      (admits_of_due (due.imp fun _ _ => And.left) fits) go' (List.append_assoc ..).symm next
  refine ⟨r, ds, r', last, opened, found, yields, ended, left, fun sink' leaveOpen' go'' => ?_⟩
  rw [found]
  exact writes_of_due obliging'' flushing'' accepted short copies sink' leaveOpen' go'' rfl

/-- The same batch twice, written, read and written again one byte at a time with an interruption before each. -/
theorem written_again_secondList :
    ∃ stream w w', start Batch.secondList.schema (⟨⟨true⟩, #[], 0⟩ : Sink Hesitant) = .ok w ∧
      Accepts w [Batch.secondList, Batch.secondList] w' ∧ w'.drop.content = stream ∧
      ∃ r read r' last, Reader.start (⟨⟨true⟩, stream.toArray, 0⟩ : Source Hesitant) = .ok r ∧
        Reader.Yields r read r' ∧ r'.next? = (none, last) ∧
        ∃ v v', start r.schema (⟨⟨true⟩, #[], 0⟩ : Sink Hesitant) = .ok v ∧ Accepts v read v' ∧
          v'.drop.content = stream := by
  have admits : Limits.Admits {} (padded 19) 0 := Limits.admits_default (by decide) (by decide)
  have due := messageOf?_of_encode (m := ⟨_, _⟩) encode_secondList (by unfold Message.Short; decide)
  obtain ⟨w, w', started, wrote, -⟩ := writes_of_due Hesitant.obliging Hesitant.flushing encode_secondSchema
    (by unfold Message.Short; decide) (.cons ⟨due, rfl⟩ (.cons ⟨due, rfl⟩ .nil)) ⟨⟨true⟩, #[], 0⟩ false trivial rfl
  obtain ⟨-, -, -, -, active, -⟩ := start_ok started
  obtain ⟨log, ran, taken⟩ := wrote.run active.steady
  have only : ∀ b ∈ acknowledged log, b = Batch.secondList := by simp [taken]
  obtain ⟨-, again⟩ := written_again Hesitant.obliging Hesitant.flushing Hesitant.obliging Hesitant.obliging
    Hesitant.flushing
  obtain ⟨stream, content, reads⟩ := again _ _ _ w w' log .dropped trivial started ran fun b hb =>
    only b hb ▸ Batch.reachable_secondList
  obtain ⟨r, read, r', last, opened, -, yields, ended, -, copy⟩ := reads {} ⟨⟨true⟩, stream.toArray, 0⟩ []
    (fun metadata h => Except.ok.inj (h.symm.trans encode_secondSchema) ▸ admits)
    (fun b hb => only b hb ▸ fitsIn_secondList) trivial (by rw [Source.ahead_unread, List.append_nil])
  obtain ⟨v, v', started', wrote', -, closed⟩ := copy ⟨⟨true⟩, #[], 0⟩ false trivial
  exact ⟨stream, w, w', started, wrote, content, r, read, r', last, opened, yields, ended, v, v', started', wrote',
    closed .dropped⟩

end Writer

end ColumnStream
