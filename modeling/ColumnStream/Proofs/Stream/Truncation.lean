/-
Streams cut short. The first bytes of a stream are some whole messages and a part of the next one, or of the end
marker. A reader brings the batches of the whole messages; then it finds the stream ended if there is nothing of
the next one, and corrupt if there is anything of it.
-/
import ColumnStream.Proofs.Stream.RoundTrip

namespace ColumnStream

/-! ## Where a stream is cut -/

/-- What stands in a stream where these messages are still to come. -/
def Message.next : List Message → Bytes
  | [] => endMarker
  | m :: _ => m.bytes

/-- The bytes of some messages and the end marker, cut inside the next one of them or before it. -/
theorem Message.exists_cut {ms : List Message} {k : Nat} (h : k < (ms.flatMap bytes ++ endMarker).length) :
    ∃ before after y, ms = before ++ after ∧ (ms.flatMap bytes ++ endMarker).take k = before.flatMap bytes ++ y ∧
      y <+: next after ∧ y.length < (next after).length := by
  induction ms generalizing k with
  | nil =>
    refine ⟨[], [], endMarker.take k, rfl, rfl, List.take_prefix .., ?_⟩
    rw [List.length_take]
    simp only [List.flatMap_nil, List.nil_append] at h
    exact lt_of_le_of_lt (Nat.min_le_left ..) h
  | cons m ms ih =>
    rw [List.flatMap_cons, List.append_assoc] at h ⊢
    by_cases inside : k < m.bytes.length
    · refine ⟨[], m :: ms, m.bytes.take k, rfl, ?_, List.take_prefix .., ?_⟩
      · rw [List.take_append_of_le_length (by omega)]
        rfl
      · rw [List.length_take]
        exact lt_of_le_of_lt (Nat.min_le_left ..) inside
    · rw [List.length_append] at h
      obtain ⟨before, after, y, rfl, cut, first, fewer⟩ := ih (k := k - m.bytes.length) (by omega)
      refine ⟨m :: before, after, y, rfl, ?_, first, fewer⟩
      rw [List.take_append, List.take_of_length_le (by omega), cut, List.flatMap_cons, List.append_assoc]

/-- Where the `i`-th of the messages ends if they stand behind `first`. -/
def Message.stop (first : Message) (ms : List Message) (i : Nat) : Nat :=
  first.bytes.length + ((ms.take i).flatMap bytes).length

theorem Message.stop_mono (first : Message) (ms : List Message) {i j : Nat} (h : i ≤ j) :
    stop first ms i ≤ stop first ms j := by
  obtain ⟨rest, split⟩ := List.take_prefix_take_left (l := ms) h
  rw [stop, stop, ← split, List.flatMap_append, List.length_append]
  omega

/-- No further message ends within the cut. -/
theorem Message.le_of_stop_le {first : Message} {before after : List Message} {y : Bytes}
    (fewer : y.length < (next after).length) {i : Nat} (hi : i ≤ (before ++ after).length)
    (within : stop first (before ++ after) i ≤ first.bytes.length + (before.flatMap bytes).length + y.length) :
    i ≤ before.length := by
  by_contra further
  cases after with
  | nil => exact further (by simpa using hi)
  | cons m after =>
    obtain ⟨k, rfl⟩ : ∃ k, i = before.length + (k + 1) := ⟨i - before.length - 1, by omega⟩
    rw [stop, List.take_append, List.take_of_length_le (by omega), Nat.add_sub_cancel_left, List.take_succ_cons,
      List.flatMap_append, List.flatMap_cons, List.length_append, List.length_append] at within
    simp only [next] at fewer
    omega

/-! ## Reading up to the cut -/

namespace Reader

variable {σ : Type} [Device σ] {ready : σ → Prop} (obliging : Device.Obliging ready) (ending : Device.Ending ready)
  {schema : Schema} {limits : Limits}
include obliging ending

theorem readMessage_cut {after : List Message} (short : ∀ m ∈ after, m.Short) (declares : ∀ m ∈ after, m.Declares)
    (admits : ∀ m ∈ after, limits.Admits (padded m.metadata.length) m.body.size) {s : Source σ} (h : ready s.device)
    (first : s.ahead <+: Message.next after) (fewer : s.ahead.length < (Message.next after).length)
    (some : s.ahead ≠ []) : ∃ problem s', s.readMessage limits = (fail (.corruptStream problem), s') := by
  cases after with
  | nil =>
    obtain ⟨s', call⟩ := Source.readMessage_in_marker obliging ending limits h some fewer
    exact ⟨_, s', call⟩
  | cons m after =>
    have mem : m ∈ m :: after := List.mem_cons_self ..
    exact Source.readMessage_torn obliging ending h (short m mem) (declares m mem) (admits m mem)
      (Message.torn_of_prefix first fewer) some

/-- A reader does not start inside the schema message. -/
theorem start_cut {metadata : Bytes} (accepted : schema.encode = .ok metadata) (short : Message.Short ⟨metadata, #[]⟩)
    (admitsSchema : limits.Admits (padded metadata.length) 0) {source : Source σ} (h : ready source.device)
    (first : source.ahead <+: Message.bytes ⟨metadata, #[]⟩)
    (fewer : source.ahead.length < (Message.bytes ⟨metadata, #[]⟩).length) :
    ∃ problem left, start source limits = .error (.error (.corruptStream problem), left) := by
  by_cases some : source.ahead = []
  · obtain ⟨left, -, call, -⟩ := Source.readMessage_nothing obliging ending limits h some
    exact ⟨.noSchema, left, by rw [start, call]; rfl⟩
  · obtain ⟨problem, left, call⟩ := Source.readMessage_torn obliging ending h short (Schema.declares accepted)
      admitsSchema (Message.torn_of_prefix first fewer) some
    exact ⟨problem, left, by rw [start, call]; rfl⟩

/-- At the end of the data a reader finds nothing where a message would begin, and an error inside one. -/
theorem readBatch_cut {after : List Message} (short : ∀ m ∈ after, m.Short) (declares : ∀ m ∈ after, m.Declares)
    (admits : ∀ m ∈ after, limits.Admits (padded m.metadata.length) m.body.size) {r : Reader σ}
    (going : Going ready schema limits r) (first : r.source.ahead <+: Message.next after)
    (fewer : r.source.ahead.length < (Message.next after).length) :
    (r.source.ahead = [] → ∃ last, r.readBatch = (.ok none, last)) ∧
      (r.source.ahead ≠ [] → ∃ problem last, r.readBatch = (fail (.corruptStream problem), last)) := by
  constructor
  · intro nothing
    obtain ⟨source, -, call, -⟩ := Source.readMessage_nothing obliging ending limits going.ready nothing
    refine ⟨{ r with source, finished := true }, ?_⟩
    rw [readBatch, if_neg (by simp [going.finished]), going.limits, call]
  · intro some
    obtain ⟨problem, source, call⟩ := readMessage_cut obliging ending short declares admits going.ready first fewer some
    refine ⟨problem, { r with source }, ?_⟩
    rw [readBatch, if_neg (by simp [going.finished]), going.limits, call]
    rfl

/-- Behind the schema the batches of all messages before the cut are read, and no others. -/
theorem read_cut {metadata : Bytes} (accepted : schema.encode = .ok metadata) (short : Message.Short ⟨metadata, #[]⟩)
    (admitsSchema : limits.Admits (padded metadata.length) 0) {ms : List Message} {bs : List Batch}
    (each : List.Forall₂ Message.Carries ms bs) (same : ∀ b ∈ bs, b.schema = schema)
    (admits : ∀ m ∈ ms, limits.Admits (padded m.metadata.length) m.body.size) {stream : Bytes}
    (stream_eq : stream = Message.bytes ⟨metadata, #[]⟩ ++ (ms.flatMap Message.bytes ++ endMarker)) {k : Nat}
    (inside : k < stream.length) (behind : Message.stop ⟨metadata, #[]⟩ ms 0 ≤ k) {source : Source σ}
    (h : ready source.device) (next : source.ahead = stream.take k) :
    ∃ j r read r', j ≤ bs.length ∧ Message.stop ⟨metadata, #[]⟩ ms j ≤ k ∧
      (∀ i ≤ bs.length, Message.stop ⟨metadata, #[]⟩ ms i ≤ k → i ≤ j) ∧
      start source limits = .ok r ∧ r.schema = schema ∧ Yields r read r' ∧
      List.Forall₂ (fun d b => Batch.equal d b = .ok true) read (bs.take j) ∧
      (k = Message.stop ⟨metadata, #[]⟩ ms j → ∃ last, r'.readBatch = (.ok none, last)) ∧
      (k ≠ Message.stop ⟨metadata, #[]⟩ ms j →
        ∃ problem last, r'.readBatch = (fail (.corruptStream problem), last)) := by
  have count := each.length_eq
  simp only [Message.stop, List.take_zero, List.flatMap_nil, List.length_nil, Nat.add_zero] at behind
  obtain ⟨past, rfl⟩ := Nat.exists_eq_add_of_le behind
  rw [stream_eq, List.length_append] at inside
  replace inside : past < (ms.flatMap Message.bytes ++ endMarker).length := by omega
  obtain ⟨before, after, y, rfl, cut, first, fewer⟩ := Message.exists_cut inside
  have place : past = (before.flatMap Message.bytes).length + y.length := by
    have length := congrArg List.length cut
    rwa [List.length_take, Nat.min_eq_left inside.le, List.length_append] at length
  have stop : Message.stop ⟨metadata, #[]⟩ (before ++ after) before.length =
      (Message.bytes ⟨metadata, #[]⟩).length + (before.flatMap Message.bytes).length := by
    rw [Message.stop, List.take_left]
  -- The schema and the messages of `before` are there; what is left of the next one is `y`.
  rw [stream_eq, List.take_length_add_append, cut] at next
  have stands := Message.stands_bytes short (Schema.declares accepted) (before.flatMap Message.bytes ++ y)
  rw [← next] at stands
  have own : limits.Admits (Message.filled metadata).length 0 := by rwa [Message.length_filled]
  obtain ⟨r, started, going, next₁, -⟩ := start_of_stands obliging h stands own (Schema.schemaOf_eq accepted _ _)
  have whole := List.forall₂_take before.length each
  rw [List.take_left] at whole
  obtain ⟨ds, r', yields, equals, going', next₂, -⟩ := yields_messages obliging whole
    (fun b hb => same b (List.mem_of_mem_take hb)) (fun m hm => admits m (List.mem_append_left _ hm)) going next₁
  have carried : ∀ m ∈ after, ∃ b, m.Carries b := fun m hm =>
    Message.exists_carried each m (List.mem_append_right _ hm)
  obtain ⟨nothing, torn⟩ := readBatch_cut obliging ending (fun m hm => (carried m hm).elim fun _ h => h.short)
    (fun m hm => (carried m hm).elim fun _ h => h.declares) (fun m hm => admits m (List.mem_append_right _ hm)) going'
    (next₂ ▸ first) (next₂ ▸ fewer)
  rw [next₂] at nothing torn
  rw [List.length_append] at count
  refine ⟨before.length, r, ds, r', by omega, by omega, fun i hi within => ?_, started, going.schema, yields, equals,
    fun exactly => nothing ?_, fun other => torn fun none => other ?_⟩
  · exact Message.le_of_stop_le fewer (by rw [List.length_append]; omega) (within.trans (by omega))
  · exact List.length_eq_zero_iff.1 (by omega)
  · rw [none, List.length_nil] at place
    omega

end Reader

namespace Writer

variable {σ τ : Type} [Device σ] [Device τ] {ready : σ → Prop} {ready' : τ → Prop}

/-- Of a stream that was written and then cut short at any byte, a reader brings the batches whose frames are whole;
`ends j` is where the `j`-th of them stops, and `ends 0` where the schema does. Then the stream has ended if it was
cut just there, and is found corrupt if it was cut anywhere else. -/
theorem read_truncated (obliging : Device.Obliging ready) (flushing : Device.Flushing ready)
    (obliging' : Device.Obliging ready') (ending : Device.Ending ready') {schema : Schema} {metadata : Bytes}
    (accepted : schema.encode = .ok metadata) {limits : Limits} (short : Message.Short ⟨metadata, #[]⟩)
    (admits : limits.Admits (padded metadata.length) 0) {batches : List Batch}
    (each : ∀ b ∈ batches, b.Reachable ∧ b.InMemory ∧ b.schema = schema ∧ b.FitsIn limits)
    (sink : Sink σ) (h : ready sink.device) (leaveOpen : Bool) :
    ∃ (stream : Bytes) (ends : Nat → Nat) (w w' : Writer σ), start schema sink leaveOpen = .ok w ∧
      Accepts w batches w' ∧
      (∃ done, w'.finish = (.ok (), done) ∧ done.sink.content = sink.content ++ stream) ∧
      (∃ given, w'.intoSink = .ok given ∧ given.content = sink.content ++ stream) ∧
      w'.drop.content = sink.content ++ stream ∧
      (∀ j ≤ batches.length, ends j + endMarker.length ≤ stream.length ∧ ∃ w₁, Accepts w (batches.take j) w₁ ∧
        w₁.sink.content = sink.content ++ stream.take (ends j)) ∧
      ∀ k < stream.length, ∀ source : Source τ, ready' source.device → source.ahead = stream.take k →
        (k < ends 0 → ∃ problem left, Reader.start source limits = .error (.error (.corruptStream problem), left)) ∧
        (ends 0 ≤ k → ∃ j r read r', j ≤ batches.length ∧ ends j ≤ k ∧
          (∀ i ≤ batches.length, ends i ≤ k → i ≤ j) ∧
          Reader.start source limits = .ok r ∧ r.schema = schema ∧ Reader.Yields r read r' ∧
          List.Forall₂ (fun d b => Batch.equal d b = .ok true) read (batches.take j) ∧
          ((∃ i ≤ batches.length, k = ends i) → ∃ last, r'.readBatch = (.ok none, last)) ∧
          ((∀ i ≤ batches.length, k ≠ ends i) →
            ∃ problem last, r'.readBatch = (fail (.corruptStream problem), last))) := by
  obtain ⟨ms, both, within⟩ := exists_messages fun b hb => ⟨(each b hb).1, (each b hb).2.1, (each b hb).2.2.2⟩
  have due : List.Forall₂ (fun m b => messageOf? b = some m) ms batches := both.imp fun _ _ => And.left
  have carries : List.Forall₂ Message.Carries ms batches := both.imp fun _ _ => And.right
  obtain ⟨w, started, ready₁⟩ := start_obliging obliging accepted short sink leaveOpen h
  obtain ⟨metadata', accepted', -, schema_eq, active, content⟩ := start_ok started
  obtain rfl : metadata' = metadata := Except.ok.inj (accepted'.symm.trans accepted)
  have schemas : ∀ b ∈ batches, b.schema = w.schema := fun b hb => (each b hb).2.2.1.trans schema_eq.symm
  obtain ⟨w', wrote, active', ready₂, content'⟩ := accepts_obliging obliging due active ready₁ schemas
  obtain ⟨finished, given, dropped⟩ := ends_obliging obliging flushing active' ready₂
  let first : Message := ⟨metadata', #[]⟩
  let stream := first.bytes ++ (ms.flatMap Message.bytes ++ endMarker)
  have total : w'.sink.content ++ endMarker = sink.content ++ stream := by
    rw [content', content]
    simp only [stream, first, List.append_assoc]
  rw [total] at finished given dropped
  refine ⟨stream, first.stop ms, w, w', started, wrote, finished, given, dropped, fun j hj => ?_,
    fun k inside source ready₃ next => ⟨fun early => ?_, fun behind => ?_⟩⟩
  · obtain ⟨w₁, wrote₁, -, -, content₁⟩ := accepts_obliging obliging (List.forall₂_take j due) active ready₁
      fun b hb => schemas b (List.mem_of_mem_take hb)
    have split : stream = first.bytes ++ ((ms.take j).flatMap Message.bytes ++
        ((ms.drop j).flatMap Message.bytes ++ endMarker)) := by
      rw [← List.append_assoc ((ms.take j).flatMap _), ← List.flatMap_append, List.take_append_drop]
    refine ⟨?_, w₁, wrote₁, ?_⟩
    · rw [split, Message.stop, List.length_append, List.length_append, List.length_append]
      omega
    · rw [split, Message.stop, List.take_length_add_append, List.take_left, content₁, content, List.append_assoc]
  · simp only [Message.stop, List.take_zero, List.flatMap_nil, List.length_nil, Nat.add_zero] at early
    rw [List.take_append_of_le_length (by omega)] at next
    exact Reader.start_cut obliging' ending accepted short admits ready₃ (next ▸ List.take_prefix ..)
      (by rw [next]; exact lt_of_le_of_lt (List.length_take_le ..) early)
  · obtain ⟨j, r, read, r', hj, le, greatest, opened, schema', yields, equal, nothing, torn⟩ :=
      Reader.read_cut obliging' ending accepted short admits carries (fun b hb => (each b hb).2.2.1) within rfl inside
        behind ready₃ next
    refine ⟨j, r, read, r', hj, le, greatest, opened, schema', yields, equal, fun ⟨i, hi, exactly⟩ => ?_,
      fun other => torn (other j hj)⟩
    have mono := first.stop_mono ms (greatest i hi exactly.ge)
    exact nothing (le_antisymm (exactly.le.trans mono) le)

/-- The same batch twice, and all of the stream but its last byte. -/
theorem read_truncated_secondList :
    ∃ stream w w', start Batch.secondList.schema (⟨⟨true⟩, #[], 0⟩ : Sink Hesitant) = .ok w ∧
      Accepts w [Batch.secondList, Batch.secondList] w' ∧ w'.drop.content = stream ∧
      ∃ r read r' problem last,
        Reader.start (⟨⟨true⟩, (stream.take (stream.length - 1)).toArray, 0⟩ : Source Hesitant) = .ok r ∧
        Reader.Yields r read r' ∧
        List.Forall₂ (fun d b => Batch.equal d b = .ok true) read [Batch.secondList, Batch.secondList] ∧
        r'.readBatch = (fail (.corruptStream problem), last) := by
  have admits : Limits.Admits {} (padded 19) 0 := Limits.admits_default (by decide) (by decide)
  obtain ⟨stream, ends, w, w', started, wrote, -, -, dropped, frames, reads⟩ :=
    read_truncated Hesitant.obliging Hesitant.flushing Hesitant.obliging Hesitant.ending encode_secondSchema
      (by unfold Message.Short; decide) admits twice_secondList ⟨⟨true⟩, #[], 0⟩ trivial false
  -- Every frame ends before the end marker does, of which the cut leaves seven bytes.
  have before {j : Nat} (hj : j ≤ 2) : ends j < stream.length - 1 := by
    have := (frames j hj).1
    simp only [endMarker, continuation, Bytes.zeros, List.length_append, List.length_cons, List.length_nil,
      List.length_replicate] at this
    omega
  have first := before (Nat.zero_le 2)
  obtain ⟨-, later⟩ := reads (stream.length - 1) (by omega)
    ⟨⟨true⟩, (stream.take (stream.length - 1)).toArray, 0⟩ trivial (Source.ahead_unread _ _)
  obtain ⟨j, r, read, r', hj, -, greatest, opened, -, yields, equal, -, torn⟩ := later first.le
  obtain rfl : j = 2 := le_antisymm hj (greatest 2 (le_refl 2) (before (le_refl 2)).le)
  obtain ⟨problem, last, failed⟩ := torn fun i hi => (before hi).ne'
  exact ⟨stream, w, w', started, wrote, dropped, r, read, r', problem, last, opened, yields, equal, failed⟩

end Writer

end ColumnStream
