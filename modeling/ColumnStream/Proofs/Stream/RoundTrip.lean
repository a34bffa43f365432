/-
A stream there and back. On obliging devices a writer takes every batch and ends the stream, and a
reader of these bytes brings the schema and the batches back in order and stops right after the end
marker, however the devices cut the bytes into calls.
-/
import ColumnStream.Proofs.Stream.Reader
import ColumnStream.Proofs.Stream.Writer

namespace ColumnStream

/-! ## Batches within the limits -/

/-- The message of the batch is one that a reader with these limits is prepared to read. -/
structure Batch.FitsIn (limits : Limits) (b : Batch) : Prop where
  body : ∀ header body, b.layOut = .ok (header, body) → body.size ≤ limits.maxBody ∧ limits.Holds body.size
  metadata : ∀ metadata body, b.encode = .ok (metadata, body) → Message.Short ⟨metadata, body⟩ ∧
    padded metadata.length ≤ limits.maxMetadata ∧ limits.Holds (padded metadata.length)

theorem Batch.FitsIn.admits {limits : Limits} {b : Batch} (fits : b.FitsIn limits) {m : Message}
    (encoded : b.encode = .ok (m.metadata, m.body)) : limits.Admits (padded m.metadata.length) m.body.size := by
  obtain ⟨header, laid, -⟩ := Batch.encode_ok encoded
  obtain ⟨bodyFits, bodyHolds⟩ := fits.body _ _ laid
  obtain ⟨-, metadataFits, metadataHolds⟩ := fits.metadata _ _ encoded
  exact ⟨metadataFits, bodyFits, metadataHolds, bodyHolds⟩

theorem Batch.Sound.message_of_fits {b : Batch} (h : b.Sound) (small : b.InMemory) {limits : Limits}
    (fits : b.FitsIn limits) :
    ∃ m, Writer.messageOf? b = some m ∧ m.Carries b ∧ limits.Admits (padded m.metadata.length) m.body.size := by
  obtain ⟨d, -, laid, encoded⟩ := h.encode_eq small
  have word : d.spreadBody.size < wordSize := lt_of_le_of_lt (le_padded _) (fits.body _ _ laid).2.1
  obtain ⟨metadata, -, encoded⟩ := encoded word
  have short := (fits.metadata _ _ encoded).1
  refine ⟨⟨metadata, d.spreadBody⟩, ?_, h.carries small encoded short, fits.admits encoded⟩
  rw [Writer.messageOf?, encoded]
  exact if_pos short

theorem Writer.exists_messages {limits : Limits} {batches : List Batch}
    (each : ∀ b ∈ batches, b.Reachable ∧ b.InMemory ∧ b.FitsIn limits) :
    ∃ ms, List.Forall₂ (fun m b => messageOf? b = some m ∧ m.Carries b) ms batches ∧
      ∀ m ∈ ms, limits.Admits (padded m.metadata.length) m.body.size := by
  induction batches with
  | nil => exact ⟨[], .nil, by simp⟩
  | cons b batches ih =>
    obtain ⟨⟨reachable, small, fits⟩, others⟩ := List.forall_mem_cons.1 each
    obtain ⟨m, due, carries, own⟩ := reachable.sound.message_of_fits small fits
    obtain ⟨ms, rest, all⟩ := ih others
    exact ⟨m :: ms, .cons ⟨due, carries⟩ rest, List.forall_mem_cons.2 ⟨own, all⟩⟩

namespace Writer

theorem carries_of_due {ms : List Message} {bs : List Batch}
    (due : List.Forall₂ (fun m b => messageOf? b = some m) ms bs) (each : ∀ b ∈ bs, b.Reachable ∧ b.InMemory) :
    List.Forall₂ Message.Carries ms bs := by
  induction due with
  | nil => exact .nil
  | cons first _ ih =>
    obtain ⟨⟨reachable, small⟩, others⟩ := List.forall_mem_cons.1 each
    obtain ⟨encoded, short⟩ := messageOf?_some first
    exact .cons (reachable.sound.carries small encoded short) (ih others)

variable {σ : Type} [Device σ]

/-! ## Writing on obliging devices -/

/-- The writer takes these batches, one after another. -/
inductive Accepts : Writer σ → List Batch → Writer σ → Prop
  | nil (w : Writer σ) : Accepts w [] w
  | cons {w w' w'' : Writer σ} {b : Batch} {bs : List Batch} : w.writeBatch b = (.ok (), w') → Accepts w' bs w'' →
      Accepts w (b :: bs) w''

section

variable {ready : σ → Prop} (obliging : Device.Obliging ready)
include obliging

theorem start_obliging {schema : Schema} {metadata : Bytes} (accepted : schema.encode = .ok metadata)
    (short : Message.Short ⟨metadata, #[]⟩) (sink : Sink σ) (leaveOpen : Bool) (h : ready sink.device) :
    ∃ w, start schema sink leaveOpen = .ok w ∧ ready w.sink.device := by
  obtain ⟨sink', ready', ran⟩ := Sink.writeMessage_obliging obliging short sink h
  exact ⟨_, by rw [start, accepted]; simp only; rw [ran], ready'⟩

theorem writeBatch_obliging {w : Writer σ} (active : w.Active) (h : ready w.sink.device) {b : Batch} {m : Message}
    (due : messageOf? b = some m) (schema : b.schema = w.schema) :
    ∃ w', w.writeBatch b = (.ok (), w') ∧ w'.Active ∧ w'.schema = w.schema ∧ ready w'.sink.device ∧
      w'.sink.content = w.sink.content ++ m.bytes := by
  have found : w.message? b = some m := by rw [message?, if_pos ⟨active, schema⟩, due]
  have short := (message?_some found).2.2.2
  obtain ⟨sink, ready', ran⟩ := Sink.writeMessage_obliging obliging short w.sink h
  have put := Sink.writeMessage_puts short w.sink
  rw [ran] at put
  exact ⟨{ w with sink, batchesWritten := w.batchesWritten + 1 }, by rw [writeBatch_of_some found, ran],
    ⟨active.finished, active.holdsSink⟩, rfl, ready', put.content_eq⟩

theorem accepts_obliging {bs : List Batch} {ms : List Message}
    (due : List.Forall₂ (fun m b => messageOf? b = some m) ms bs) {w : Writer σ} (active : w.Active)
    (h : ready w.sink.device) (schema : ∀ b ∈ bs, b.schema = w.schema) :
    ∃ w', Accepts w bs w' ∧ w'.Active ∧ ready w'.sink.device ∧
      w'.sink.content = w.sink.content ++ ms.flatMap Message.bytes := by
  induction due generalizing w with
  | nil => exact ⟨w, .nil w, active, h, (List.append_nil _).symm⟩
  | @cons m b ms bs first _ ih =>
    obtain ⟨own, others⟩ := List.forall_mem_cons.1 schema
    obtain ⟨w₁, wrote, active₁, schema₁, ready₁, content₁⟩ := writeBatch_obliging obliging active h first own
    obtain ⟨w₂, rest, active₂, ready₂, content₂⟩ := ih active₁ ready₁ fun b hb => (others b hb).trans schema₁.symm
    exact ⟨w₂, .cons wrote rest, active₂, ready₂, by rw [content₂, content₁, List.flatMap_cons, List.append_assoc]⟩

variable (flushing : Device.Flushing ready)
include flushing

theorem finish_obliging {w : Writer σ} (active : w.Active) (h : ready w.sink.device) :
    ∃ sink, sink.content = w.sink.content ++ endMarker ∧
      w.finish = (.ok (), { w with sink, finished := true, holdsSink := w.leaveOpen }) := by
  obtain ⟨sink, ready', ran⟩ := Sink.writeEnd_obliging obliging w.sink h
  have put := w.sink.writeEnd_puts
  rw [ran] at put
  obtain ⟨sink', -, content, flushed⟩ := Sink.flush_eq_ok flushing sink ready'
  refine ⟨sink', content.trans put.content_eq, ?_⟩
  rw [finish_of_active active, ran]
  simp only
  rw [flushed]

/-- Finishing, dropping the writer and taking its sink back all end the stream. -/
theorem ends_obliging {w : Writer σ} (active : w.Active) (h : ready w.sink.device) :
    (∃ w', w.finish = (.ok (), w') ∧ w'.sink.content = w.sink.content ++ endMarker) ∧
      (∃ sink, w.intoSink = .ok sink ∧ sink.content = w.sink.content ++ endMarker) ∧
      w.drop.content = w.sink.content ++ endMarker := by
  obtain ⟨sink, content, ran⟩ := finish_obliging obliging flushing active h
  obtain ⟨sink', content', ran'⟩ := finish_obliging obliging flushing (w := { w with leaveOpen := true })
    ⟨active.finished, active.holdsSink⟩ h
  refine ⟨⟨_, ran, content⟩, ⟨sink', ?_, content'⟩, by rw [drop, ran]; exact content⟩
  rw [intoSink, if_neg (by simp [active.finished]), ran']
  rfl

end

/-! ## There and back -/

variable {τ : Type} [Device τ] {ready : σ → Prop} {ready' : τ → Prop}

/-- Whatever batches are written under a schema, on whatever devices that always move on, come back in
order, followed by the end for ever. The reader takes just the bytes that were written. -/
theorem read_written (obliging : Device.Obliging ready) (flushing : Device.Flushing ready)
    (obliging' : Device.Obliging ready') {schema : Schema} {metadata : Bytes}
    (accepted : schema.encode = .ok metadata) {limits : Limits} (short : Message.Short ⟨metadata, #[]⟩)
    (admits : limits.Admits (padded metadata.length) 0) {batches : List Batch}
    (each : ∀ b ∈ batches, b.Reachable ∧ b.InMemory ∧ b.schema = schema ∧ b.FitsIn limits)
    (sink : Sink σ) (h : ready sink.device) (leaveOpen : Bool) :
    ∃ stream w w', start schema sink leaveOpen = .ok w ∧ Accepts w batches w' ∧
      (∃ done, w'.finish = (.ok (), done) ∧ done.sink.content = sink.content ++ stream) ∧
      (∃ given, w'.intoSink = .ok given ∧ given.content = sink.content ++ stream) ∧
      w'.drop.content = sink.content ++ stream ∧
      ∀ (source : Source τ) (rest : Bytes), ready' source.device → source.ahead = stream ++ rest →
        ∃ r read r' last, Reader.start source limits = .ok r ∧ r.schema = schema ∧ Reader.Yields r read r' ∧
          List.Forall₂ (fun d b => Batch.equal d b = .ok true) read batches ∧
          r'.next? = (none, last) ∧ last.next? = (none, last) ∧
          last.source.ahead = rest ∧ last.source.taken = source.taken + stream.length := by
  obtain ⟨ms, both, within⟩ := exists_messages fun b hb => ⟨(each b hb).1, (each b hb).2.1, (each b hb).2.2.2⟩
  have due : List.Forall₂ (fun m b => messageOf? b = some m) ms batches := both.imp fun _ _ => And.left
  have carries : List.Forall₂ Message.Carries ms batches := both.imp fun _ _ => And.right
  obtain ⟨w, started, ready₁⟩ := start_obliging obliging accepted short sink leaveOpen h
  obtain ⟨metadata', accepted', -, schema_eq, active, content⟩ := start_ok started
  obtain rfl : metadata' = metadata := Except.ok.inj (accepted'.symm.trans accepted)
  obtain ⟨w', wrote, active', ready₂, content'⟩ := accepts_obliging obliging due active ready₁ fun b hb =>
    (each b hb).2.2.1.trans schema_eq.symm
  obtain ⟨finished, given, dropped⟩ := ends_obliging obliging flushing active' ready₂
  -- However the stream is ended, the same bytes are in the sink.
  have total : w'.sink.content ++ endMarker =
      sink.content ++ (Message.bytes ⟨metadata', #[]⟩ ++ ms.flatMap Message.bytes ++ endMarker) := by
    rw [content', content]
    simp only [List.append_assoc]
  rw [total] at finished given dropped
  refine ⟨_, w, w', started, wrote, finished, given, dropped, fun source rest ready₃ next => ?_⟩
  exact Reader.read_stream obliging' accepted short admits carries (fun b hb => (each b hb).2.2.1) within ready₃
    rfl next

theorem encode_secondList : Batch.secondList.encode =
    .ok ([1, 2, 16, 1, 2, 1, 0, 2, 0, 4, 0, 0, 0, 8, 8, 0, 8, 2], #[0, 0, 0, 0, 2, 0, 0, 0, 2, 3, 0, 0, 0, 0, 0, 0]) :=
  rfl

theorem fitsIn_secondList : Batch.secondList.FitsIn {} := by
  have laid : Batch.secondList.layOut = .ok (_, #[0, 0, 0, 0, 2, 0, 0, 0, 2, 3, 0, 0, 0, 0, 0, 0]) := rfl
  constructor
  · intro header body h
    rw [laid] at h
    cases h
    exact ⟨by decide, Limits.holds_default (by decide)⟩
  · intro metadata body h
    rw [encode_secondList] at h
    cases h
    exact ⟨by unfold Message.Short; decide, by decide, Limits.holds_default (by decide)⟩

/-- The metadata of the schema that the batch is of. -/
theorem encode_secondSchema : Batch.secondList.schema.encode =
    .ok [1, 1, 0, 1, 5, 108, 105, 115, 116, 115, 1, 32, 4, 105, 116, 101, 109, 0, 6] := by decide +kernel

theorem twice_secondList : ∀ b ∈ [Batch.secondList, Batch.secondList],
    b.Reachable ∧ b.InMemory ∧ b.schema = Batch.secondList.schema ∧ b.FitsIn {} := by
  intro b hb
  obtain rfl : b = Batch.secondList := by simpa using hb
  exact ⟨Batch.reachable_secondList, Batch.inMemory_secondList, rfl, fitsIn_secondList⟩

/-- The same batch twice, written and read one byte at a time with an interruption before each. -/
theorem read_written_secondList :
    ∃ stream w w', start Batch.secondList.schema (⟨⟨true⟩, #[], 0⟩ : Sink Hesitant) = .ok w ∧
      Accepts w [Batch.secondList, Batch.secondList] w' ∧ w'.drop.content = stream ∧
      ∃ r read r' last, Reader.start (⟨⟨true⟩, stream.toArray, 0⟩ : Source Hesitant) = .ok r ∧ Reader.Yields r read r' ∧
        List.Forall₂ (fun d b => Batch.equal d b = .ok true) read [Batch.secondList, Batch.secondList] ∧
        r'.next? = (none, last) ∧ last.next? = (none, last) := by
  have admits : Limits.Admits {} (padded 19) 0 := Limits.admits_default (by decide) (by decide)
  obtain ⟨stream, w, w', started, wrote, -, -, dropped, reads⟩ :=
    read_written Hesitant.obliging Hesitant.flushing Hesitant.obliging encode_secondSchema
      (by unfold Message.Short; decide) admits twice_secondList ⟨⟨true⟩, #[], 0⟩ trivial false
  obtain ⟨r, read, r', last, opened, -, yields, equal, ended, ever, -⟩ :=
    reads ⟨⟨true⟩, stream.toArray, 0⟩ [] trivial (by rw [Source.ahead_unread, List.append_nil])
  exact ⟨stream, w, w', started, wrote, dropped, r, read, r', last, opened, yields, equal, ended, ever⟩

end Writer

end ColumnStream
