/-
What a reader finds in a stream. Whatever its source does, the batches it brings are those of messages
that stand in the stream one after another; a source that always moves on brings all of them, up to the
end marker.
-/
import ColumnStream.Proofs.Batch.RoundTrip
import ColumnStream.Proofs.Batch.Total
import ColumnStream.Proofs.Message
import ColumnStream.Stream.Reader

namespace ColumnStream

/-! ## Messages that carry a schema or a batch -/

/-- Read with any padding, the message gives just this batch. -/
structure Message.Gives (schema : Schema) (m : Message) (d : Batch) : Prop where
  short : m.Short
  declares : m.Declares
  read : ∀ pad, Reader.batchOf schema ⟨m.metadata ++ pad, m.body⟩ = .ok d

/-- Read with any padding, the message gives a batch that equals `b` from either side. -/
structure Message.Carries (m : Message) (b : Batch) : Prop where
  short : m.Short
  declares : m.Declares
  read : ∃ d, (∀ pad, Reader.batchOf b.schema ⟨m.metadata ++ pad, m.body⟩ = .ok d) ∧
    d.equal b = .ok true ∧ b.equal d = .ok true

theorem Message.exists_given {schema : Schema} {ms : List Message} {bs : List Batch}
    (each : List.Forall₂ Carries ms bs) (same : ∀ b ∈ bs, b.schema = schema) :
    ∃ ds, List.Forall₂ (Gives schema) ms ds ∧ List.Forall₂ (fun d b => Batch.equal d b = .ok true) ds bs := by
  induction each with
  | nil => exact ⟨[], .nil, .nil⟩
  | cons carries _ ih =>
    obtain ⟨rfl, others⟩ := List.forall_mem_cons.1 same
    obtain ⟨d, read, equal, -⟩ := carries.read
    obtain ⟨ds, given, equals⟩ := ih others
    exact ⟨d :: ds, .cons ⟨carries.short, carries.declares, read⟩ given, .cons equal equals⟩

theorem Message.exists_carried {ms : List Message} {bs : List Batch} (each : List.Forall₂ Carries ms bs) :
    ∀ m ∈ ms, ∃ b, m.Carries b := by
  induction each with
  | nil => simp
  | cons first _ ih => exact List.forall_mem_cons.2 ⟨⟨_, first⟩, ih⟩

theorem Metadata.declares {m : Metadata} {metadata : Bytes} {body : Buffer} (h : Metadata.encode m = .ok metadata)
    (length : m.bodyLength = body.size) : Message.Declares ⟨metadata, body⟩ := by
  intro rest
  obtain ⟨left, read⟩ := Metadata.parsePrelude_encode h rest
  exact ⟨_, left, length ▸ read⟩

theorem Batch.encode_ok {b : Batch} {metadata : Bytes} {body : Buffer} (h : b.encode = .ok (metadata, body)) :
    ∃ header, b.layOut = .ok (header, body) ∧ Metadata.encode ⟨.batch header, body.size⟩ = .ok metadata := by
  obtain ⟨⟨header, body⟩, laid, h⟩ := bind_eq_ok.1 h
  obtain ⟨written, hwritten, h⟩ := bind_eq_ok.1 h
  cases h
  exact ⟨header, laid, hwritten⟩

/-- The message of a batch carries it. -/
theorem Batch.Sound.carries {b : Batch} (h : b.Sound) (small : b.InMemory) {m : Message}
    (encoded : b.encode = .ok (m.metadata, m.body)) (short : m.Short) : m.Carries b := by
  obtain ⟨metadata, body⟩ := m
  obtain ⟨d, packed, laid, -⟩ := h.encode_eq small
  obtain ⟨header, laid', hwritten⟩ := Batch.encode_ok encoded
  cases laid.symm.trans laid'
  refine ⟨short, Metadata.declares hwritten rfl, d, fun pad => ?_, packed.equal_eq h small⟩
  rw [Reader.batchOf, Metadata.decode_encode hwritten, ok_bind]
  exact packed.ofHeader_eq h (Metadata.encode_word hwritten)

theorem Schema.declares {schema : Schema} {metadata : Bytes} (h : schema.encode = .ok metadata) :
    Message.Declares ⟨metadata, #[]⟩ := Metadata.declares h rfl

theorem Schema.schemaOf_eq {schema : Schema} {metadata : Bytes} (h : schema.encode = .ok metadata) (pad : Bytes)
    (body : Buffer) : Reader.schemaOf (some ⟨metadata ++ pad, body⟩) = .ok schema := by
  rw [Reader.schemaOf, Metadata.decode_encode h, ok_bind]
  rfl

namespace Reader

/-! ## Decoding whatever a message holds -/

theorem answers_schemaOf (first : Option Message) : Answers Error.OfMessage (fun _ => True) (schemaOf first) := by
  unfold schemaOf
  split
  · trivial
  · rename_i m
    refine (Metadata.decode_ofMessage m.metadata).bind fun decoded _ _ => ?_
    split <;> trivial

theorem answers_batchOf (schema : Schema) (m : Message) :
    Answers Error.OfMessage Batch.Reachable (batchOf schema m) := by
  refine (Metadata.decode_ofMessage m.metadata).bind fun decoded ran _ => ?_
  split
  · rename_i header batch
    exact Batch.answers_ofHeader schema (Metadata.numRows_lt ran batch) m.body
  · trivial

variable {σ : Type} [Device σ]

/-! ## Iterations -/

/-- The iteration brings these batches, one after another. -/
inductive Yields : Reader σ → List Batch → Reader σ → Prop
  | nil (r : Reader σ) : Yields r [] r
  | cons {r r' r'' : Reader σ} {b : Batch} {bs : List Batch} : r.next? = (some (.ok b), r') → Yields r' bs r'' →
      Yields r (b :: bs) r''

theorem Yields.append {r r' r'' : Reader σ} {bs cs : List Batch} (h : Yields r bs r') (h' : Yields r' cs r'') :
    Yields r (bs ++ cs) r'' := by
  induction h with
  | nil => exact h'
  | cons next _ ih => exact .cons next (ih h')

theorem next?_some_iff {r r' : Reader σ} {b : Batch} :
    r.next? = (some (.ok b), r') ↔ r.readBatch = (.ok (some b), r') := by
  unfold next?
  split <;> rename_i call <;> rw [call] <;> simp [fail, misuse]

theorem next?_none_iff {r r' : Reader σ} : r.next? = (none, r') ↔ r.readBatch = (.ok none, r') := by
  unfold next?
  split <;> rename_i call <;> rw [call] <;> simp

theorem next?_of_finished {r : Reader σ} (h : r.finished = true) : r.next? = (none, r) := by
  rw [next?_none_iff, readBatch, if_pos h]

/-! ## Any source -/

/-- A batch is only brought if a message that carries it stands at the reader's place. -/
theorem stands_of_next? {r r' : Reader σ} {d : Batch} (h : r.next? = (some (.ok d), r')) :
    ∃ m, m.Stands r.source.ahead r'.source.ahead ∧ batchOf r.schema m = .ok d ∧ r'.schema = r.schema := by
  rw [next?_some_iff] at h
  unfold readBatch at h
  split at h
  · cases h
  · split at h
    · cases h
    · cases h
    · rename_i m source call
      split at h
      · cases h
      · rename_i b found
        cases h
        exact ⟨m, Source.stands_of_readMessage call, found, rfl⟩

/-- A reader starts with the schema that stands first. -/
theorem stands_of_start {source : Source σ} {limits : Limits} {r : Reader σ}
    (h : start source limits = .ok r) :
    ∃ m, m.Stands source.ahead r.source.ahead ∧ schemaOf (some m) = .ok r.schema := by
  unfold start at h
  split at h
  · cases h
  · rename_i first after call
    split at h
    · cases h
    · rename_i schema found
      cases h
      cases first with
      | none => cases found
      | some m => exact ⟨m, Source.stands_of_readMessage call, found⟩

/-- The bytes begin with a message that carries the batch. -/
def Finds (schema : Schema) (bytes : Bytes) (d : Batch) : Prop :=
  ∃ m rest, m.Stands bytes rest ∧ batchOf schema m = .ok d

/-- The padding of the metadata is not read. -/
theorem batchOf_append {metadata : Metadata} {m : Message} (written : Metadata.encode metadata = .ok m.metadata)
    (schema : Schema) (pad : Bytes) (body : Buffer) :
    batchOf schema ⟨m.metadata ++ pad, body⟩ = batchOf schema ⟨m.metadata, body⟩ := by
  have bare := Metadata.decode_encode written []
  rw [List.append_nil] at bare
  rw [batchOf, batchOf, Metadata.decode_encode written, bare]

/-- Once the metadata of a message is there, a batch is found just where enough bytes follow for the rest,
and the bytes in the place of the body can be read as one. -/
theorem finds_head_iff {metadata : Metadata} {m : Message} (written : Metadata.encode metadata = .ok m.metadata)
    (length : metadata.bodyLength = m.body.size) (short : m.Short) (schema : Schema) (y : Bytes) (d : Batch) :
    Finds schema (m.head ++ y) d ↔ padding m.metadata.length + padded m.body.size ≤ y.length ∧
      batchOf schema ⟨m.metadata, ((y.drop (padding m.metadata.length)).take m.body.size).toArray⟩ = .ok d := by
  have declares := Metadata.declares written length
  constructor
  · rintro ⟨m', rest, stands, found⟩
    obtain ⟨pad, body, pad', rfl, padLength, sizes, padLength', rfl⟩ :=
      (Message.stands_head_iff short declares).1 stands
    rw [batchOf_append written] at found
    constructor
    · simp only [List.length_append, Array.length_toList, padded]
      omega
    · rwa [← padLength, ← sizes, List.append_assoc, List.drop_left, ← Array.length_toList, List.append_assoc,
        List.take_left]
  · rintro ⟨enough, found⟩
    have parts : y = y.take (padding m.metadata.length) ++
        (((y.drop (padding m.metadata.length)).take m.body.size).toArray.toList ++
          ((y.drop (padding m.metadata.length)).drop m.body.size).take (padding m.body.size)) ++
        ((y.drop (padding m.metadata.length)).drop m.body.size).drop (padding m.body.size) := by
      simp only [List.append_assoc, List.take_append_drop]
    unfold padded at enough
    refine ⟨_, _, (Message.stands_head_iff short declares).2
      ⟨_, _, _, parts, ?_, ?_, ?_, rfl⟩, by rwa [batchOf_append written]⟩
    · rw [List.length_take]
      omega
    · rw [List.size_toArray, List.length_take, List.length_drop]
      omega
    · rw [List.length_take, List.length_drop, List.length_drop]
      omega

/-- Where messages stand one after another, a reader that brings something else has brought all their
batches and found another one behind them. -/
theorem Yields.of_messages {ms : List Message} {bs read : List Batch} (each : List.Forall₂ Message.Carries ms bs)
    {r r' : Reader σ} (same : ∀ b ∈ bs, b.schema = r.schema) {tail : Bytes}
    (next : r.source.ahead = ms.flatMap Message.bytes ++ tail) (h : Yields r read r') :
    (∃ known, known <+: bs ∧ List.Forall₂ (fun d b => Batch.equal d b = .ok true) read known) ∨
      bs.length < read.length ∧ ∃ d, Finds r.schema tail d := by
  induction each generalizing r read with
  | nil =>
    cases h with
    | nil => exact .inl ⟨[], List.nil_prefix, .nil⟩
    | cons first rest =>
      obtain ⟨m, stands, found, -⟩ := stands_of_next? first
      rw [next, List.flatMap_nil, List.nil_append] at stands
      exact .inr ⟨by simp, _, m, _, stands, found⟩
  | @cons m b ms bs carries _ ih =>
    cases h with
    | nil => exact .inl ⟨[], List.nil_prefix, .nil⟩
    | @cons _ r₁ _ d ds first rest =>
      obtain ⟨own, others⟩ := List.forall_mem_cons.1 same
      obtain ⟨m', stands, found, kept⟩ := stands_of_next? first
      obtain ⟨d', read', equal, -⟩ := carries.read
      rw [next, List.flatMap_cons, List.append_assoc] at stands
      -- The message that was found is the one that was written there, so it carries `b`.
      obtain ⟨rfl, next'⟩ := (Message.stands_bytes carries.short carries.declares _).unique stands
      have filled := read' (Bytes.zeros (padding m.metadata.length))
      rw [own] at filled
      obtain rfl : d' = d := Except.ok.inj (filled.symm.trans found)
      rcases ih (fun b hb => (others b hb).trans kept.symm) next'.symm rest with
        ⟨known, before, equals⟩ | ⟨longer, found'⟩
      · exact .inl ⟨b :: known, List.cons_prefix_cons.2 ⟨rfl, before⟩, .cons equal equals⟩
      · exact .inr ⟨Nat.succ_lt_succ longer, kept ▸ found'⟩

/-! ## Obliging sources -/

/-- Whether the call brought a batch. -/
def brings : Result (Option Batch) → Bool
  | .ok (some _) => true
  | _ => false

/-- The reader waits for its source and has not come to the end. -/
structure Going (ready : σ → Prop) (schema : Schema) (limits : Limits) (r : Reader σ) : Prop where
  ready : ready r.source.device
  schema : r.schema = schema
  limits : r.limits = limits
  finished : r.finished = false

variable {ready : σ → Prop} (obliging : Device.Obliging ready) {schema : Schema} {limits : Limits}
include obliging

theorem start_of_stands {source : Source σ} (h : ready source.device) {m : Message} {rest : Bytes}
    (stands : m.Stands source.ahead rest) (admits : limits.Admits m.metadata.length m.body.size)
    (found : schemaOf (some m) = .ok schema) :
    ∃ r, start source limits = .ok r ∧ Going ready schema limits r ∧ r.source.ahead = rest ∧
      r.source.taken = source.taken + m.size := by
  obtain ⟨source', ready', call, ahead, taken⟩ := Source.readMessage_of_stands obliging h stands admits
  refine ⟨⟨source', schema, limits, false, 0⟩, ?_, ⟨ready', rfl, rfl, rfl⟩, ahead, taken⟩
  rw [start, call]
  simp only
  rw [found]

/-- A message is read whole, whatever comes of it. -/
theorem readBatch_of_stands {r : Reader σ} (going : Going ready schema limits r) {m : Message} {rest : Bytes}
    (stands : m.Stands r.source.ahead rest) (admits : limits.Admits m.metadata.length m.body.size) :
    Going ready schema limits r.readBatch.2 ∧ r.readBatch.1 = (batchOf schema m).map some ∧
      r.readBatch.2.source.ahead = rest ∧ r.readBatch.2.source.taken = r.source.taken + m.size ∧
      r.readBatch.2.batchesRead = r.batchesRead + [(batchOf schema m).map some].countP brings := by
  obtain ⟨source, ready', call, ahead, taken⟩ := Source.readMessage_of_stands obliging going.ready stands admits
  rw [readBatch, if_neg (by simp [going.finished]), going.limits, call]
  simp only
  rw [going.schema]
  cases batchOf schema m <;> exact ⟨⟨ready', rfl, rfl, going.finished⟩, rfl, ahead, taken, rfl⟩

theorem readBatch_of_end {r : Reader σ} (going : Going ready schema limits r) {rest : Bytes}
    (next : r.source.ahead = endMarker ++ rest) :
    r.readBatch.1 = .ok none ∧ r.readBatch.2.finished = true ∧ r.readBatch.2.source.ahead = rest ∧
      r.readBatch.2.source.taken = r.source.taken + markerLength ∧ r.readBatch.2.batchesRead = r.batchesRead := by
  obtain ⟨source, ready', call, ahead, taken⟩ := Source.readMessage_end obliging limits going.ready next
  rw [readBatch, if_neg (by simp [going.finished]), going.limits, call]
  exact ⟨rfl, rfl, ahead, taken, rfl⟩

theorem next?_of_stands {r : Reader σ} (going : Going ready schema limits r) {m : Message} {rest : Bytes} {d : Batch}
    (stands : m.Stands r.source.ahead rest) (admits : limits.Admits m.metadata.length m.body.size)
    (found : batchOf schema m = .ok d) :
    ∃ r', r.next? = (some (.ok d), r') ∧ Going ready schema limits r' ∧ r'.source.ahead = rest ∧
      r'.source.taken = r.source.taken + m.size := by
  obtain ⟨going', result, ahead, taken, -⟩ := readBatch_of_stands obliging going stands admits
  rw [found] at result
  exact ⟨_, next?_some_iff.2 (Prod.ext result rfl), going', ahead, taken⟩

theorem next?_end {r : Reader σ} (going : Going ready schema limits r) {rest : Bytes}
    (next : r.source.ahead = endMarker ++ rest) :
    ∃ r', r.next? = (none, r') ∧ r'.finished = true ∧ r'.source.ahead = rest ∧
      r'.source.taken = r.source.taken + endMarker.length := by
  obtain ⟨result, finished, ahead, taken, -⟩ := readBatch_of_end obliging going next
  exact ⟨_, next?_none_iff.2 (Prod.ext result rfl), finished, ahead, taken⟩

/-- The batches of messages that stand one after another. -/
theorem yields_given {ms : List Message} {ds : List Batch} (each : List.Forall₂ (Message.Gives schema) ms ds)
    (admits : ∀ m ∈ ms, limits.Admits (padded m.metadata.length) m.body.size) {r : Reader σ}
    (going : Going ready schema limits r) {rest : Bytes} (next : r.source.ahead = ms.flatMap Message.bytes ++ rest) :
    ∃ r', Yields r ds r' ∧ Going ready schema limits r' ∧ r'.source.ahead = rest ∧
      r'.source.taken = r.source.taken + (ms.flatMap Message.bytes).length := by
  induction each generalizing r with
  | nil => exact ⟨r, .nil r, going, next, rfl⟩
  | @cons m d ms ds gives _ ih =>
    rw [List.flatMap_cons, List.append_assoc] at next
    have stands := Message.stands_bytes gives.short gives.declares (ms.flatMap Message.bytes ++ rest)
    rw [← next] at stands
    have own : limits.Admits (Message.filled m.metadata).length m.body.size := by
      rw [Message.length_filled]
      exact admits m (List.mem_cons_self ..)
    obtain ⟨r₁, first, going₁, next₁, taken₁⟩ := next?_of_stands obliging going stands own (gives.read _)
    obtain ⟨r₂, others, going₂, next₂, taken₂⟩ := ih (fun m hm => admits m (List.mem_cons_of_mem _ hm)) going₁ next₁
    refine ⟨r₂, .cons first others, going₂, next₂, ?_⟩
    rw [taken₂, taken₁, List.flatMap_cons, List.length_append, Message.length_bytes, Nat.add_assoc]
    congr 2
    simp [Message.size, Message.length_filled, Message.padded_padded]

theorem yields_messages {ms : List Message} {bs : List Batch} (each : List.Forall₂ Message.Carries ms bs)
    (same : ∀ b ∈ bs, b.schema = schema) (admits : ∀ m ∈ ms, limits.Admits (padded m.metadata.length) m.body.size)
    {r : Reader σ} (going : Going ready schema limits r) {rest : Bytes}
    (next : r.source.ahead = ms.flatMap Message.bytes ++ rest) :
    ∃ ds r', Yields r ds r' ∧ List.Forall₂ (fun d b => Batch.equal d b = .ok true) ds bs ∧
      Going ready schema limits r' ∧ r'.source.ahead = rest ∧
      r'.source.taken = r.source.taken + (ms.flatMap Message.bytes).length := by
  obtain ⟨ds, given, equals⟩ := Message.exists_given each same
  obtain ⟨r', yields, going', left, taken⟩ := yields_given obliging given admits going next
  exact ⟨ds, r', yields, equals, going', left, taken⟩

/-- A batch that stands behind the others is brought after them, if the limits admit all that stands in
the stream. -/
theorem read_found {metadata : Bytes} (accepted : schema.encode = .ok metadata) (short : Message.Short ⟨metadata, #[]⟩)
    {ms : List Message} {bs : List Batch} (each : List.Forall₂ Message.Carries ms bs)
    (same : ∀ b ∈ bs, b.schema = schema) {stream tail : Bytes}
    (stream_eq : stream = Message.bytes ⟨metadata, #[]⟩ ++ (ms.flatMap Message.bytes ++ tail))
    (large : ∀ (m : Message) (x rest : Bytes), m.Stands x rest → x <:+ stream →
      limits.Admits m.metadata.length m.body.size)
    {d : Batch} (found : Finds schema tail d) {source : Source σ} (h : ready source.device)
    (next : source.ahead = stream) :
    ∃ r ds r', start source limits = .ok r ∧ Yields r (ds ++ [d]) r' ∧
      List.Forall₂ (fun d b => Batch.equal d b = .ok true) ds bs := by
  have stands := Message.stands_bytes short (Schema.declares accepted) (ms.flatMap Message.bytes ++ tail)
  rw [← stream_eq, ← next] at stands
  obtain ⟨r, started, going, next₁, -⟩ := start_of_stands obliging h stands
    (large _ _ _ stands (next ▸ List.suffix_refl _)) (Schema.schemaOf_eq accepted _ _)
  have admits : ∀ m ∈ ms, limits.Admits (padded m.metadata.length) m.body.size := by
    intro m hm
    obtain ⟨b, carries⟩ := Message.exists_carried each m hm
    obtain ⟨before, after, rfl⟩ := List.append_of_mem hm
    have stands := Message.stands_bytes carries.short carries.declares (after.flatMap Message.bytes ++ tail)
    have own := large _ _ _ stands ⟨Message.bytes ⟨metadata, #[]⟩ ++ before.flatMap Message.bytes, by
      rw [stream_eq, List.flatMap_append, List.flatMap_cons]
      simp only [List.append_assoc]⟩
    rwa [Message.length_filled] at own
  obtain ⟨ds, r', yields, equals, going', next₂, -⟩ := yields_messages obliging each same admits going next₁
  obtain ⟨m, rest, stands', batch⟩ := found
  rw [← next₂] at stands'
  obtain ⟨r'', last, -⟩ := next?_of_stands obliging going' stands'
    (large _ _ _ stands' ⟨Message.bytes ⟨metadata, #[]⟩ ++ ms.flatMap Message.bytes, by
      rw [stream_eq, next₂, List.append_assoc]⟩) batch
  exact ⟨r, ds, r'', started, yields.append (.cons last (.nil r'')), equals⟩

/-- A whole stream: the schema, the batches, and the end for ever after. -/
theorem read_given {metadata : Bytes} (accepted : schema.encode = .ok metadata)
    (short : Message.Short ⟨metadata, #[]⟩) (admitsSchema : limits.Admits (padded metadata.length) 0)
    {ms : List Message} {ds : List Batch} (each : List.Forall₂ (Message.Gives schema) ms ds)
    (admits : ∀ m ∈ ms, limits.Admits (padded m.metadata.length) m.body.size)
    {source : Source σ} (h : ready source.device) {stream rest : Bytes}
    (stream_eq : stream = Message.bytes ⟨metadata, #[]⟩ ++ ms.flatMap Message.bytes ++ endMarker)
    (next : source.ahead = stream ++ rest) :
    ∃ r r' last, start source limits = .ok r ∧ r.schema = schema ∧ Yields r ds r' ∧
      r'.next? = (none, last) ∧ last.next? = (none, last) ∧
      last.source.ahead = rest ∧ last.source.taken = source.taken + stream.length := by
  rw [stream_eq, List.append_assoc, List.append_assoc] at next
  have stands := Message.stands_bytes short (Schema.declares accepted) (ms.flatMap Message.bytes ++ (endMarker ++ rest))
  rw [← next] at stands
  have own : limits.Admits (Message.filled metadata).length 0 := by rwa [Message.length_filled]
  obtain ⟨r, started, going, next₁, taken₁⟩ := start_of_stands obliging h stands own
    (Schema.schemaOf_eq accepted _ _)
  obtain ⟨r', yields, going', next₂, taken₂⟩ := yields_given obliging each admits going next₁
  obtain ⟨last, ended, finished, next₃, taken₃⟩ := next?_end obliging going' next₂
  refine ⟨r, r', last, started, going.schema, yields, ended, next?_of_finished finished, next₃, ?_⟩
  rw [taken₃, taken₂, taken₁, stream_eq, List.length_append, List.length_append, Message.length_bytes]
  simp only [Message.size, Message.length_filled, Message.padded_padded]
  omega

theorem read_stream {metadata : Bytes} (accepted : schema.encode = .ok metadata)
    (short : Message.Short ⟨metadata, #[]⟩) (admitsSchema : limits.Admits (padded metadata.length) 0)
    {ms : List Message} {bs : List Batch} (each : List.Forall₂ Message.Carries ms bs)
    (same : ∀ b ∈ bs, b.schema = schema) (admits : ∀ m ∈ ms, limits.Admits (padded m.metadata.length) m.body.size)
    {source : Source σ} (h : ready source.device) {stream rest : Bytes}
    (stream_eq : stream = Message.bytes ⟨metadata, #[]⟩ ++ ms.flatMap Message.bytes ++ endMarker)
    (next : source.ahead = stream ++ rest) :
    ∃ r ds r' last, start source limits = .ok r ∧ r.schema = schema ∧ Yields r ds r' ∧
      List.Forall₂ (fun d b => Batch.equal d b = .ok true) ds bs ∧
      r'.next? = (none, last) ∧ last.next? = (none, last) ∧
      last.source.ahead = rest ∧ last.source.taken = source.taken + stream.length := by
  obtain ⟨ds, given, equals⟩ := Message.exists_given each same
  obtain ⟨r, r', last, started, schema', yields, ended⟩ :=
    read_given obliging accepted short admitsSchema given admits h stream_eq next
  exact ⟨r, ds, r', last, started, schema', yields, equals, ended⟩

end Reader

end ColumnStream
