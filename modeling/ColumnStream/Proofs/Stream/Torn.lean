/-
Streams that were torn. A write that fails for good leaves the first part of a frame in the sink, and the
writer goes on after it, if only to end the stream, so that whatever is written next is taken for the
rest of that frame. `Tears` finds the first such frame and `Completes` says that what follows it makes it
up to a batch; only then a reader brings a batch that was not accepted.
-/
import ColumnStream.Proofs.Stream.RoundTrip
import ColumnStream.Transport.Script

namespace ColumnStream.Writer

/-! ## Where a stream is torn -/

/-- The call put nothing into the sink, or a message and all of it. -/
def Clean (e : Event) : Prop := e.sent = [] ∨ e.sent = e.due ∧ e.call ≠ .finish

/-- The first frame that came in only in part is the one of `e`, and no end marker came in before. -/
structure Tears (log before : List Event) (e : Event) (after : List Event) : Prop where
  split : log = before ++ e :: after
  clean : ∀ x ∈ before, Clean x
  begun : e.sent ≠ []
  broken : e.sent ≠ e.due

/-- What follows the torn frame makes it up to a batch. -/
structure Completes (schema : Schema) (log before : List Event) (e : Event) (after : List Event) (d : Batch) :
    Prop where
  tears : Tears log before e after
  found : Reader.Finds schema (e.sent ++ Writer.sent after) d

theorem clean_or_split (log : List Event) : (∀ x ∈ log, Clean x) ∨
    ∃ before e after, log = before ++ e :: after ∧ (∀ x ∈ before, Clean x) ∧ ¬ Clean e := by
  induction log with
  | nil => exact .inl (by simp)
  | cons e log ih =>
    by_cases clean : Clean e
    · rcases ih with all | ⟨before, x, after, rfl, all, first⟩
      · exact .inl (List.forall_mem_cons.2 ⟨clean, all⟩)
      · exact .inr ⟨e :: before, x, after, rfl, List.forall_mem_cons.2 ⟨clean, all⟩, first⟩
    · exact .inr ⟨[], e, log, rfl, by simp, clean⟩

variable {σ : Type} [Device σ] {w w' : Writer σ}

/-- Up to where a stream is torn or ended there are the frames of the accepted batches. -/
theorem Run.of_clean {log : List Event} (h : Run w log w') (active : w.Active) (clean : ∀ e ∈ log, Clean e) :
    w'.Active ∧ ∃ ms, Writer.sent log = ms.flatMap Message.bytes ∧
      List.Forall₂ (fun m b => messageOf? b = some m ∧ b.schema = w.schema) ms (acknowledged log) := by
  induction h with
  | nil => exact ⟨active, [], rfl, .nil⟩
  | @cons w w₁ w₂ e log step rest ih =>
    obtain ⟨own, others⟩ := List.forall_mem_cons.1 clean
    have skip (same : Same w w₁) (none : e.sent = []) (refused : ∀ b, e.call = .write b → e.result ≠ .ok ()) :
        w₂.Active ∧ ∃ ms, Writer.sent (e :: log) = ms.flatMap Message.bytes ∧
          List.Forall₂ (fun m b => messageOf? b = some m ∧ b.schema = w.schema) ms (acknowledged (e :: log)) := by
      rw [sent_cons, none, List.nil_append, acknowledged_cons_of_refused refused]
      exact same.schema ▸ ih (same.active active) others
    cases step.effect active.steady with
    | idle due none refused again same => exact skip same none refused
    | @wrote b m _ found command due sent accepted same =>
      obtain ⟨active', ms, eq, each⟩ := ih (same.active active) others
      have first : messageOf? b = some m ∧ b.schema = w.schema :=
        ⟨messageOf?_of_message? found, (message?_some found).2.1⟩
      refine ⟨active', m :: ms, by rw [sent_cons, sent, eq, List.flatMap_cons], ?_⟩
      rw [acknowledged_cons_of_ok command accepted]
      exact .cons first (same.schema ▸ each)
    | tore _ found command due split some refused same =>
      rcases own with none | ⟨whole, -⟩
      · exact skip same none fun b _ => refused
      · exact absurd (List.append_right_eq_self.1 (split.symm.trans whole.symm)) some
    | ended _ command due sent =>
      rcases own with none | ⟨-, write⟩
      · rw [none] at sent
        cases sent
      · exact absurd command write
    | unended _ command due split refused same =>
      rcases own with none | ⟨-, write⟩
      · exact skip same none fun b _ => refused
      · exact absurd command write

/-- Where a clean run stops, an end marker or a torn frame comes in. -/
theorem Step.of_not_clean {e : Event} (active : w.Active) (step : Step w e w') (h : ¬ Clean e) :
    e.sent = endMarker ∨ e.sent ≠ [] ∧ e.sent ≠ e.due := by
  obtain ⟨some, write⟩ := not_or.1 h
  by_cases whole : e.sent = e.due
  · have finish : e.call = .finish := by
      by_contra other
      exact write ⟨whole, other⟩
    refine .inl ?_
    rw [whole, step.due, finish, due_of_active active]
  · exact .inr ⟨some, whole⟩

theorem Step.refused_of_torn {e : Event} (active : w.Active) (step : Step w e w') (begun : e.sent ≠ [])
    (broken : e.sent ≠ e.due) : e.result ≠ .ok () := by
  cases step.effect active.steady with
  | idle _ none => exact absurd none begun
  | wrote _ _ _ due sent => exact absurd (sent.trans due.symm) broken
  | tore _ _ _ _ _ _ refused => exact refused
  | ended _ _ due sent => exact absurd (sent.trans due.symm) broken
  | unended _ _ _ _ refused => exact refused

/-! ## What a torn frame needs to be completed -/

/-- A call puts the first part of its frame into the sink. -/
inductive Frames (e : Event) : Prop
  | none : e.sent = [] → Frames e
  | message {b : Batch} {m : Message} {missing : Bytes} : e.call = .write b → messageOf? b = some m →
      e.due = m.bytes → m.bytes = e.sent ++ missing → Frames e
  | endMarker {missing : Bytes} : e.call = .finish → e.due = endMarker → endMarker = e.sent ++ missing → Frames e

theorem Step.frames {e : Event} (steady : w.Steady) (h : Step w e w') : Frames e := by
  cases h.effect steady with
  | idle due none => exact .none none
  | wrote active found command due sent =>
    exact .message command (messageOf?_of_message? found) due (by rw [sent, List.append_nil])
  | tore active found command due split =>
    exact .message command (messageOf?_of_message? found) due (due.symm.trans split)
  | ended active command due sent => exact .endMarker command due (by rw [sent, List.append_nil])
  | unended active command due split => exact .endMarker command due (due.symm.trans split)

theorem Run.frames {log : List Event} (h : Run w log w') (steady : w.Steady) : ∀ e ∈ log, Frames e := by
  induction h with
  | nil => simp
  | cons step _ ih => exact List.forall_mem_cons.2 ⟨step.frames steady, ih ((step.effect steady).steady steady)⟩

/-! ### Torn markers -/

/-- A first part of a frame: its marker comes first, and the version of its metadata next to the length. -/
structure Piece (x : Bytes) : Prop where
  marker : ∀ i < 4, ∀ v, x[i]? = some v → v = 255
  version : x[8]? ≠ some 2

theorem Piece.of_append {x y : Bytes} (h : Piece (x ++ y)) : Piece x := by
  have kept {i : Nat} {v : UInt8} (found : x[i]? = some v) : (x ++ y)[i]? = some v := by
    rwa [List.getElem?_append_left (List.getElem?_eq_some_iff.1 found).1]
  exact ⟨fun i first v found => h.marker i first v (kept found), fun found => h.version (kept found)⟩

theorem piece_endMarker : Piece endMarker := by
  constructor
  · intro i first v found
    interval_cases i <;> simp [endMarker, continuation] at found <;> exact found.symm
  · decide

theorem piece_bytes {b : Batch} {m : Message} (h : messageOf? b = some m) : Piece m.bytes := by
  obtain ⟨encoded, -⟩ := messageOf?_some h
  obtain ⟨header, -, written⟩ := Batch.encode_ok encoded
  obtain ⟨length, rest, -, -, metadata⟩ := Metadata.encode_ok written
  constructor
  · intro i first v found
    interval_cases i <;> simp [Message.bytes, continuation] at found <;> exact found.symm
  · simp [Message.bytes, continuation, Bytes.ofNat, Message.filled, metadata, metadataVersion]

theorem Frames.piece {e : Event} (h : Frames e) : Piece e.sent := by
  cases h with
  | none sent => exact sent ▸ ⟨by simp, by simp⟩
  | message _ found _ split => exact (split ▸ piece_bytes found).of_append
  | endMarker _ _ split => exact (split ▸ piece_endMarker).of_append

theorem sent_front {log : List Event} (frames : ∀ e ∈ log, Frames e) {i : Nat} (first : i < 4) {v : UInt8}
    (found : (Writer.sent log)[i]? = some v) : v = 255 := by
  induction log generalizing i with
  | nil => simp [Writer.sent] at found
  | cons e log ih =>
    obtain ⟨own, others⟩ := List.forall_mem_cons.1 frames
    rw [sent_cons] at found
    by_cases inside : i < e.sent.length
    · rw [List.getElem?_append_left inside] at found
      exact own.piece.marker i first v found
    · rw [List.getElem?_append_right (Nat.not_lt.1 inside)] at found
      exact ih others (by omega) found

/-- One byte of the marker short, no batch can begin but one with much metadata. -/
theorem sent_second {log : List Event} (frames : ∀ e ∈ log, Frames e) (version : (Writer.sent log)[7]? = some 1)
    (kind : (Writer.sent log)[8]? = some 2) : (Writer.sent log)[4]? = some 255 := by
  induction log with
  | nil => simp [Writer.sent] at version
  | cons e log ih =>
    obtain ⟨own, others⟩ := List.forall_mem_cons.1 frames
    have front {i : Nat} (first : i < 4) {v : UInt8} (found : (Writer.sent log)[i]? = some v) : v = 255 :=
      sent_front others first found
    rw [sent_cons] at version kind ⊢
    -- Where the first piece ends decides which of the two bytes lie behind it, and there they would have to be
    -- bytes of a marker.
    by_cases eight : 8 < e.sent.length
    · rw [List.getElem?_append_left eight] at kind
      exact absurd kind own.piece.version
    · rw [List.getElem?_append_right (Nat.not_lt.1 eight)] at kind
      by_cases seven : 7 < e.sent.length
      · exact absurd (front (by omega) kind) (by decide)
      · rw [List.getElem?_append_right (Nat.not_lt.1 seven)] at version
        by_cases four : 4 < e.sent.length
        · exact absurd (front (by omega) version) (by decide)
        · rw [List.getElem?_append_right (Nat.not_lt.1 four)]
          rcases Nat.eq_zero_or_pos e.sent.length with none | some
          · rw [none] at version kind ⊢
            exact ih others version kind
          · obtain ⟨inside, -⟩ := List.getElem?_eq_some_iff.1 version
            have found := List.getElem?_eq_getElem (l := Writer.sent log) (i := 4 - e.sent.length) (by omega)
            rw [found, front (by omega) found]

/-- The length that is read where a marker is torn. -/
theorem Frames.length_of_torn {e : Event} {after : List Event} (frames : ∀ e ∈ after, Frames e) (begun : e.sent ≠ [])
    (short : e.sent.length < markerLength) (version : (e.sent ++ Writer.sent after)[8]? = some 1)
    (kind : (e.sent ++ Writer.sent after)[9]? = some 2) :
    (e.sent ++ Writer.sent after)[4]? = some 255 ∧ (e.sent ++ Writer.sent after)[5]? = some 255 := by
  have some := List.length_pos_iff.2 begun
  unfold markerLength at short
  rw [List.getElem?_append_right (by omega)] at version kind
  obtain ⟨inside, -⟩ := List.getElem?_eq_some_iff.1 version
  have front {i : Nat} (first : i < 4) (within : i ≤ 8 - e.sent.length) : (Writer.sent after)[i]? = .some 255 := by
    have found := List.getElem?_eq_getElem (l := Writer.sent after) (i := i) (by omega)
    rw [found, sent_front frames first found]
  by_cases near : e.sent.length ≤ 4
  · constructor
    · rw [List.getElem?_append_right near]
      exact front (by omega) (by omega)
    · rw [List.getElem?_append_right (by omega)]
      by_cases one : e.sent.length = 1
      · rw [one] at version kind ⊢
        exact sent_second frames version kind
      · exact front (by omega) (by omega)
  · exact absurd (sent_front frames (by omega) version) (by decide)

/-- A frame torn in its marker or in the length after it is not completed, unless very much follows. -/
theorem Frames.long_of_finds {e : Event} {after : List Event} (frames : ∀ e ∈ after, Frames e)
    (begun : e.sent ≠ []) (short : e.sent.length < markerLength) {schema : Schema} {d : Batch}
    (found : Reader.Finds schema (e.sent ++ Writer.sent after) d) : 0x10000 ≤ (Writer.sent after).length := by
  obtain ⟨m, rest, stands, found⟩ := found
  have longer := stands.length_eq
  obtain ⟨left, metadata⟩ : ∃ left, m.metadata = metadataVersion :: MessageKind.batch.tag :: left := by
    obtain ⟨metadata, read, found⟩ := bind_eq_ok.1 found
    refine Metadata.decode_batch read ?_
    split at found
    · rename_i header same
      rw [same]
      rfl
    · cases found
  have large : 0xffff ≤ m.metadata.length := by
    generalize same : e.sent ++ Writer.sent after = x at stands
    cases stands with
    | @intro _ _ length pad pad' left' kind four value =>
      obtain ⟨a, b, c, d, rfl⟩ : ∃ a b c d, length = [a, b, c, d] := List.length_eq_four.1 four
      rw [metadata] at same
      obtain ⟨first, second⟩ := Frames.length_of_torn frames begun short (by rw [same]; rfl) (by rw [same]; rfl)
      rw [same] at first second
      simp [continuation] at first second
      rw [← value, first, second]
      simp only [Bytes.toNat, UInt8.reduceToNat]
      omega
  simp only [List.length_append, Message.size, padded, markerLength] at longer short
  omega

/-! ### Torn bodies -/

/-- A frame torn behind its metadata is completed just where as many bytes follow as are missing. -/
theorem finds_torn_iff {b : Batch} {m : Message} (due : messageOf? b = some m) {torn missing following : Bytes}
    (split : m.bytes = torn ++ missing) (past : m.head.length ≤ torn.length) (schema : Schema) (d : Batch) :
    Reader.Finds schema (torn ++ following) d ↔ m.bytes.length ≤ torn.length + following.length ∧
      Reader.batchOf schema ⟨m.metadata, (((torn ++ following).drop (markerLength + padded m.metadata.length)).take
        m.body.size).toArray⟩ = .ok d := by
  obtain ⟨encoded, short⟩ := messageOf?_some due
  obtain ⟨header, -, written⟩ := Batch.encode_ok encoded
  obtain ⟨y, rfl⟩ : m.head <+: torn := by
    have front : m.head <+: m.bytes := by
      rw [Message.bytes_eq_head]
      exact List.prefix_append _ _
    exact List.prefix_of_prefix_length_le front (split ▸ List.prefix_append _ _) past
  have place : markerLength + padded m.metadata.length = m.head.length + padding m.metadata.length := by
    simp only [Message.head, List.length_append, Bytes.length_ofNat, continuation, markerLength, padded,
      List.length_cons, List.length_nil]
    omega
  have total : m.bytes.length = m.head.length + (padding m.metadata.length + padded m.body.size) := by
    rw [Message.length_bytes, Message.size, place, Nat.add_assoc]
  rw [List.append_assoc, Reader.finds_head_iff written rfl short, place, ← List.drop_drop, List.drop_left, total]
  simp only [List.length_append, Nat.add_assoc, Nat.add_le_add_iff_left]

/-! ## Reading a torn stream -/

section

variable {log : List Event} {metadata : Bytes}

/-- A reader brings the batches that were accepted, up to some of them, unless a torn frame was completed. -/
theorem Run.read_cases {τ : Type} [Device τ] (h : Run w log w') (active : w.Active)
    (accepted : w.schema.encode = .ok metadata) (short : Message.Short ⟨metadata, #[]⟩)
    (each : ∀ b ∈ acknowledged log, b.Reachable ∧ b.InMemory) {source : Source τ} {limits : Limits}
    {r r' : Reader τ} {read : List Batch} (next : source.ahead = Message.bytes ⟨metadata, #[]⟩ ++ Writer.sent log)
    (opened : Reader.start source limits = .ok r) (yields : Reader.Yields r read r') :
    (∃ known, known <+: acknowledged log ∧ List.Forall₂ (fun d b => Batch.equal d b = .ok true) read known) ∨
      ∃ before e after d, Completes w.schema log before e after d ∧ (acknowledged before).length < read.length := by
  obtain ⟨m₀, stands₀, found₀⟩ := Reader.stands_of_start opened
  rw [next] at stands₀
  obtain ⟨rfl, ahead⟩ := (Message.stands_bytes short (Schema.declares accepted) _).unique stands₀
  have schema : r.schema = w.schema :=
    (Except.ok.inj ((Schema.schemaOf_eq accepted _ _).symm.trans found₀)).symm
  -- The frames of a clean beginning, and what the reader can do at the bytes after them.
  have reads {before : List Event} {w₁ : Writer σ} {tail : Bytes} (ran : Run w before w₁)
      (clean : ∀ x ∈ before, Clean x) (begins : before <+: log) (split : Writer.sent log = Writer.sent before ++ tail) :
      (∃ known, known <+: acknowledged log ∧ List.Forall₂ (fun d b => Batch.equal d b = .ok true) read known) ∨
        (acknowledged before).length < read.length ∧ ∃ d, Reader.Finds w.schema tail d := by
    obtain ⟨-, ms, frames, both⟩ := ran.of_clean active clean
    obtain ⟨others, rfl⟩ := begins
    rw [acknowledged_append] at each ⊢
    have carries := carries_of_due (both.imp fun _ _ => And.left) fun b hb => each b (List.mem_append_left _ hb)
    have schemas : ∀ b ∈ acknowledged before, b.schema = r.schema :=
      ((List.forall₂_and_left _ _).1 (both.flip.imp fun _ _ h => ⟨h.2.trans schema.symm, h.1⟩)).1
    rw [split, frames] at ahead
    rcases Reader.Yields.of_messages carries schemas ahead.symm yields with ⟨known, first, equal⟩ | ⟨longer, found⟩
    · exact .inl ⟨known, first.trans (List.prefix_append _ _), equal⟩
    · exact .inr ⟨longer, schema ▸ found⟩
  -- Behind the clean part comes nothing, an end marker or a torn frame, and only the last can hold a batch.
  rcases clean_or_split log with clean | ⟨before, e, after, rfl, clean, first⟩
  · have split : Writer.sent log = Writer.sent log ++ [] := (List.append_nil _).symm
    rcases reads h clean (List.prefix_refl _) split with known | ⟨-, d, m, rest, stands, -⟩
    · exact .inl known
    · exact absurd stands Message.Stands.not_nil
  · obtain ⟨w₁, ran, rest⟩ := h.of_append
    cases rest with
    | cons step rest =>
      have active₁ := (ran.of_clean active clean).1
      have split : Writer.sent (before ++ e :: after) = Writer.sent before ++ (e.sent ++ Writer.sent after) := by
        rw [sent_append, sent_cons]
      rcases reads ran clean (List.prefix_append _ _) split with known | ⟨longer, d, found⟩
      · exact .inl known
      · rcases step.of_not_clean active₁ first with ended | ⟨begun, broken⟩
        · obtain ⟨m, behind, stands, -⟩ := found
          rw [ended] at stands
          exact absurd stands (Message.Stands.not_endMarker _)
        · exact .inr ⟨before, e, after, d, ⟨⟨rfl, clean, begun, broken⟩, found⟩, longer⟩

/-- A completed frame is brought as a batch, although it was refused. -/
theorem Run.read_completed {τ : Type} [Device τ] {ready : τ → Prop} (obliging : Device.Obliging ready)
    (h : Run w log w') (active : w.Active) (accepted : w.schema.encode = .ok metadata)
    (short : Message.Short ⟨metadata, #[]⟩) (each : ∀ b ∈ acknowledged log, b.Reachable ∧ b.InMemory)
    {before after : List Event} {e : Event} {d : Batch} (completes : Completes w.schema log before e after d)
    {source : Source τ} {limits : Limits} (go : ready source.device)
    (next : source.ahead = Message.bytes ⟨metadata, #[]⟩ ++ Writer.sent log)
    (large : ∀ (m : Message) (x behind : Bytes), m.Stands x behind → x <:+ source.ahead →
      limits.Admits m.metadata.length m.body.size) :
    e.result ≠ .ok () ∧ ∃ r read r', Reader.start source limits = .ok r ∧ Reader.Yields r (read ++ [d]) r' ∧
      List.Forall₂ (fun d b => Batch.equal d b = .ok true) read (acknowledged before) := by
  obtain ⟨⟨rfl, clean, begun, broken⟩, found⟩ := completes
  obtain ⟨w₁, ran, rest⟩ := h.of_append
  cases rest with
  | cons step rest =>
    obtain ⟨active₁, ms, frames, both⟩ := ran.of_clean active clean
    rw [acknowledged_append] at each
    have carries := carries_of_due (both.imp fun _ _ => And.left) fun b hb => each b (List.mem_append_left _ hb)
    have schemas : ∀ b ∈ acknowledged before, b.schema = w.schema :=
      ((List.forall₂_and_left _ _).1 (both.flip.imp fun _ _ => And.symm)).1
    rw [sent_append, sent_cons, frames] at next
    exact ⟨step.refused_of_torn active₁ begun broken,
      Reader.read_found obliging accepted short carries schemas next large found go rfl⟩

end

/-- Whatever the sink does, a reader of what is in it at last brings the accepted batches, up to some of them,
unless a frame was torn and what was written later completed it. A frame torn in its marker is not completed,
unless very much follows; one torn behind its metadata is completed just where as many bytes follow as are
missing and the body they make can be read. -/
theorem read_of_closed {schema : Schema} {sink : Sink σ} {leaveOpen : Bool} {log rest : List Event} {last : Writer σ}
    {ending : Ending} (started : start schema sink leaveOpen = .ok w) (ran : Run w log w') (ended : Run w' rest last)
    (calls : rest.map (·.call) = ending.calls) (each : ∀ b ∈ acknowledged log, b.Reachable ∧ b.InMemory) :
    ∃ stream, (w'.close ending).content = sink.content ++ stream ∧
      (∀ {τ : Type} [Device τ] (source : Source τ) (limits : Limits) (r r' : Reader τ)
          (read : List Batch), source.ahead = stream → Reader.start source limits = .ok r →
        Reader.Yields r read r' →
          (∃ known, known <+: acknowledged log ∧ List.Forall₂ (fun d b => Batch.equal d b = .ok true) read known) ∨
            ∃ before e after d, Completes schema (log ++ rest) before e after d ∧
              (acknowledged before).length < read.length) ∧
      (∀ before e after d, Completes schema (log ++ rest) before e after d →
        ∀ {τ : Type} [Device τ] {ready : τ → Prop} (source : Source τ) (limits : Limits), Device.Obliging ready →
          ready source.device → source.ahead = stream →
          (∀ (m : Message) (x behind : Bytes), m.Stands x behind → x <:+ source.ahead →
            limits.Admits m.metadata.length m.body.size) →
          e.result ≠ .ok () ∧ ∃ r read r', Reader.start source limits = .ok r ∧ Reader.Yields r (read ++ [d]) r' ∧
            List.Forall₂ (fun d b => Batch.equal d b = .ok true) read (acknowledged before)) ∧
      ∀ before e after, Tears (log ++ rest) before e after →
        (∀ d, Completes schema (log ++ rest) before e after d →
          markerLength ≤ e.sent.length ∨ 0x10000 ≤ (sent after).length) ∧
        ∀ b, e.call = .write b → ∃ m, messageOf? b = some m ∧ e.due = m.bytes ∧
          (m.head.length ≤ e.sent.length → ∀ d, Completes schema (log ++ rest) before e after d ↔
            e.due.length ≤ e.sent.length + (sent after).length ∧
              Reader.batchOf schema ⟨m.metadata, (((e.sent ++ sent after).drop
                (markerLength + padded m.metadata.length)).take m.body.size).toArray⟩ = .ok d) := by
  obtain ⟨metadata, accepted, short, rfl, active, content⟩ := start_ok started
  have total := ran.append ended
  have same : acknowledged (log ++ rest) = acknowledged log := by
    rw [acknowledged_append, acknowledged_of_finish (Ending.finishes calls).1, List.append_nil]
  rw [← same] at each ⊢
  refine ⟨Message.bytes ⟨metadata, #[]⟩ ++ Writer.sent (log ++ rest), ?_, ?_, ?_, ?_⟩
  · rw [close_eq (ran.steady active.steady) ended calls, total.content_eq, content, List.append_assoc]
  · intro τ _ source limits r r' read next opened yields
    exact total.read_cases active accepted short each next opened yields
  · intro before e after d completes τ _ ready source limits obliging go next large
    exact total.read_completed obliging active accepted short each completes go next large
  · rintro before e after tears
    have all := total.frames active.steady
    rw [tears.split] at all
    obtain ⟨own, others⟩ := List.forall_mem_cons.1 fun x hx => all x (List.mem_append_right before hx)
    constructor
    · rintro d ⟨-, found⟩
      by_contra neither
      obtain ⟨short, few⟩ := not_or.1 neither
      exact few (Frames.long_of_finds others tears.begun (Nat.not_le.1 short) found)
    · intro b call
      cases own with
      | none none => exact absurd none tears.begun
      | @message b' m missing call' due due_eq split =>
        obtain rfl : b' = b := by
          rw [call] at call'
          exact (Call.write.inj call').symm
        refine ⟨m, due, due_eq, fun past d => ?_⟩
        rw [due_eq, ← finds_torn_iff due split past]
        exact ⟨Completes.found, fun found => ⟨tears, found⟩⟩
      | endMarker call' =>
        rw [call] at call'
        cases call'

/-! ## A sink that fails one write -/

/-- An empty sink that fails once, at its fortieth byte. -/
def brittle : Sink Script := ⟨{ planned := [⟨40, .breakage, 1⟩] }, #[], 0⟩

def eightBytes (values : Buffer) : Batch :=
  ⟨⟨[⟨"v", .fixed .uint8, false⟩]⟩, 8, [⟨.fixed .uint8, 8, 0, 0, [#[], values], []⟩]⟩

/-- The batch that `brittle` fails to take where its body begins. -/
def eight : Batch := eightBytes #[1, 2, 3, 4, 5, 6, 7, 8]

def eightMessage : Message := ⟨[1, 2, 8, 8, 1, 8, 0, 2, 0, 0, 0, 8], #[1, 2, 3, 4, 5, 6, 7, 8]⟩

def refusal : Event :=
  ⟨.write eight, fail (.device .brokenPipe), eightMessage.bytes, eightMessage.bytes.take 24⟩

def closing : Event := ⟨.finish, .ok (), endMarker, endMarker⟩

theorem tears_refusal : Tears [refusal, closing] [] refusal [closing] := ⟨rfl, by simp, by decide, by decide⟩

/-- The limits a reader has by default admit whatever stands in a short stream. -/
theorem admits_of_short {m : Message} {x behind : Bytes} (stands : m.Stands x behind) (short : x.length ≤ 48) :
    Limits.Admits {} m.metadata.length m.body.size := by
  have length := stands.length_eq
  unfold Message.size at length
  have metadata := le_padded m.metadata.length
  have body := le_padded m.body.size
  exact Limits.admits_default (by omega) (by omega)

def eightSchema : Bytes := [1, 1, 0, 1, 1, 118, 0, 6]

theorem encode_eightSchema : eight.schema.encode = .ok eightSchema := by decide +kernel

/-- The message with the end marker in place of its body. -/
def altered : Message := { eightMessage with body := endMarker.toArray }

/-- The sink takes the schema, then all that stands before the body of the batch, and at last the end marker. -/
theorem closed_brittle : ∃ w w' last, start eight.schema brittle = .ok w ∧ Step w refusal w' ∧ Step w' closing last ∧
    (w'.close .dropped).content = Message.bytes ⟨eightSchema, #[]⟩ ++ altered.bytes :=
  ⟨_, _, _, by rw [start, encode_eightSchema]; cbv, ⟨by cbv, by cbv, by cbv⟩, ⟨by cbv, by cbv, by cbv⟩, by cbv⟩

/-- The end marker is read as the body of the batch. -/
theorem read_of_closed_brittle : ∃ w w' stream, start eight.schema brittle = .ok w ∧
    w.writeBatch eight = (fail (.device .brokenPipe), w') ∧ (w'.close .dropped).content = stream ∧
    ∃ r read r', Reader.start (⟨⟨true⟩, stream.toArray, 0⟩ : Source Hesitant) = .ok r ∧
      Reader.Yields r (read ++ [eightBytes #[255, 255, 255, 255, 0, 0, 0, 0]]) r' := by
  obtain ⟨w, w', last, started, step, step', taken⟩ := closed_brittle
  obtain ⟨stream, content, -, brings, counts⟩ := read_of_closed started (.cons step (.nil _)) (.cons step' (.nil _))
    (show _ = Ending.dropped.calls from rfl) fun b hb => absurd hb List.not_mem_nil
  obtain ⟨m, due, -, completes_iff⟩ := (counts [] refusal [closing] tears_refusal).2 eight rfl
  have message : messageOf? eight = some eightMessage := by cbv
  obtain rfl : m = eightMessage := Option.some.inj (due.symm.trans message)
  have completes := (completes_iff (by decide) (eightBytes #[255, 255, 255, 255, 0, 0, 0, 0])).2 ⟨by decide, rfl⟩
  have ahead : (⟨⟨true⟩, stream.toArray, 0⟩ : Source Hesitant).ahead = stream := Source.ahead_unread _ _
  have short : stream.length = 48 := by
    rw [show stream = _ from content.symm.trans taken]
    rfl
  have large (m : Message) (x behind : Bytes) (stands : m.Stands x behind) (suffix : x <:+ stream) :
      Limits.Admits {} m.metadata.length m.body.size :=
    admits_of_short stands (suffix.length_le.trans short.le)
  obtain ⟨-, r, read, r', opened, yields, -⟩ := brings _ _ _ _ completes ⟨⟨true⟩, stream.toArray, 0⟩ {}
    Hesitant.obliging trivial ahead fun m x behind stands suffix => large m x behind stands (ahead ▸ suffix)
  exact ⟨w, w', stream, started, step.call, content, r, read, r', opened, yields⟩

/-- A batch that was refused is read with other values. -/
theorem altered_eight : ∃ w w' stream r r', start eight.schema brittle = .ok w ∧
    w.writeBatch eight = (fail (.device .brokenPipe), w') ∧ (w'.close .dropped).content = stream ∧
    Reader.start (⟨⟨true⟩, stream.toArray, 0⟩ : Source Hesitant) = .ok r ∧
    r.next? = (some (.ok (eightBytes #[255, 255, 255, 255, 0, 0, 0, 0])), r') := by
  obtain ⟨w, w', last, started, step, -, taken⟩ := closed_brittle
  have opens := Message.stands_bytes (by decide) (Schema.declares encode_eightSchema) altered.bytes
  have follows := Message.stands_bytes (m := altered) (by decide) (fun rest => ⟨.batch, _, rfl⟩) []
  rw [← Source.ahead_unread (⟨true⟩ : Hesitant) (_ ++ _)] at opens
  obtain ⟨r, opened, going, next, -⟩ := Reader.start_of_stands Hesitant.obliging trivial opens
    (Limits.admits_default (by decide) (by decide)) (Schema.schemaOf_eq encode_eightSchema _ _)
  rw [List.append_nil, ← next] at follows
  obtain ⟨r', brought, -⟩ := Reader.next?_of_stands Hesitant.obliging going follows
    (Limits.admits_default (by decide) (by decide)) rfl
  exact ⟨w, w', _, r, r', started, step.call, taken, opened, brought⟩

end ColumnStream.Writer
