/-
A report beside a reader. There is a report on just the streams that a reader starts on. It lists the messages that can
be read and decoded one after another, with the sizes they have in the stream, and ends where that sequence does: with
the error that stops it, or at the end of the stream, where a reader has taken as many bytes once it brings no more.
-/
import ColumnStream.Proofs.Framing
import ColumnStream.Proofs.Stream.Neighbours
import ColumnStream.Report.Tables

namespace ColumnStream

/-! ## Reading within the default limits -/

namespace Source

variable {σ : Type} [Device σ]

/-- Sections within the default limits are smaller than the largest block of memory. -/
theorem readSection_default (part : Section) {length : Nat} (short : length ≤ 1024 * 1024 * 1024)
    (s : Source σ) :
    s.readSection {} part length = s.readSection { block := none } part length := by
  have bounded : Limits.Holds {} length := Limits.holds_default short
  have unbounded : Limits.Holds { block := none } length := ⟨bounded.1, fun most block => by cases block⟩
  rw [readSection, readSection, Limits.room_eq_ok bounded, Limits.room_eq_ok unbounded]

theorem readMessage_default (s : Source σ) :
    s.readMessage {} = s.readMessage { block := none } := by
  have marks (found : Buffer) : Limits.metadataLength {} found = Limits.metadataLength { block := none } found := rfl
  have bodies (metadata : Bytes) : Limits.bodyLength {} metadata = Limits.bodyLength { block := none } metadata := rfl
  unfold readMessage
  rcases marked : s.fill markerLength with ⟨e | marker, s₁⟩
  · rfl
  simp only [marks]
  cases declared : Limits.metadataLength { block := none } marker with
  | error e => rfl
  | ok found =>
    cases found with
    | none => rfl
    | some length =>
      obtain ⟨_, _, _, _, fits⟩ := Limits.metadataLength_ok (fill_ok marked).2 declared
      have short : length ≤ 1024 * 1024 * 1024 := le_trans fits (by decide)
      simp only [bodies, readSection_default .metadata short]
      rcases s₁.readSection { block := none } .metadata length with ⟨e | metadata, s₂⟩
      · rfl
      simp only
      cases known : Limits.bodyLength { block := none } metadata.toList with
      | error e => rfl
      | ok n => simp only [readSection_default .body (Limits.bodyLength_ok known).1]

/-- Within the default limits a call never fails but for an error. -/
theorem readMessage_error {s s' : Source σ} {e : Failure}
    (h : s.readMessage {} = (.error e, s')) : ∃ cause, e = .error cause := by
  have bounded : ¬ Limits.Overlong { block := none } s.ahead := Limits.not_overlong (by decide) _
  have unlimited : Limits.block { block := none } = none := rfl
  rw [readMessage_default] at h
  rcases readMessage_cases fills_any unlimited (s := s) trivial with answers | ⟨-, overlong⟩
  · rw [h] at answers
    rcases answers.cases with ⟨found, ran, -⟩ | ⟨cause, ran, -⟩
    · cases ran
    · exact ⟨cause, Except.error.inj ran⟩
  · exact absurd overlong bounded

end Source

/-! ## What is read one after another -/

namespace Report

/-- The messages are read and decoded one after another, from the one source to the other. -/
inductive Accepts : Source Direct → List (Message × Metadata) → Source Direct → Prop
  | nil (s : Source Direct) : Accepts s [] s
  | cons {s s' s'' : Source Direct} {m : Message} {metadata : Metadata} {ms : List (Message × Metadata)} :
      s.readMessage {} = (.ok (some m), s') → Metadata.decode m.metadata = .ok metadata →
      Accepts s' ms s'' → Accepts s ((m, metadata) :: ms) s''

/-- What comes next is no message that can be decoded: the stream ends, or it cannot be read, or the metadata cannot. -/
inductive Stops (s : Source Direct) : Entry → Prop
  | ended {s' : Source Direct} : s.readMessage {} = (.ok none, s') → Stops s (.ended s'.taken)
  | unread {cause : Error} {s' : Source Direct} : s.readMessage {} = (fail cause, s') →
      Stops s (.failed (.error cause))
  | undecoded {m : Message} {cause : Error} {s' : Source Direct} : s.readMessage {} = (.ok (some m), s') →
      Metadata.decode m.metadata = fail cause → Stops s (.failed (.error cause))

def entryOf (m : Message × Metadata) : Entry := .message m.1.metadata.length m.2

section

variable {s s' : Source Direct} {m : Message} {metadata : Metadata} {ms : List (Message × Metadata)} {last : Entry}

/-- There are such messages, and something that stops them. -/
theorem exists_accepted (s : Source Direct) : ∃ ms s' last, Accepts s ms s' ∧ Stops s' last := by
  -- By the recursion of `follow`, which goes on only behind a message that it can decode.
  fun_induction follow s with
  | case1 s e s' call =>
    obtain ⟨cause, rfl⟩ := Source.readMessage_error call
    exact ⟨[], s, _, .nil s, .unread call⟩
  | case2 s s' call => exact ⟨[], s, _, .nil s, .ended call⟩
  | case3 s m s' call e failed =>
    rcases (Metadata.answers_decode m.metadata).cases with ⟨_, ran, -⟩ | ⟨cause, ran, -⟩
    · cases failed.symm.trans ran
    · exact ⟨[], s, _, .nil s, .undecoded call ran⟩
  | case4 s m s' call metadata decoded ih =>
    obtain ⟨ms, s'', last, accepts, stops⟩ := ih
    exact ⟨(m, metadata) :: ms, s'', last, .cons call decoded accepts, stops⟩

theorem follow_of_stops (h : Stops s last) : follow s = [last] := by
  unfold follow
  cases h with
  | ended call | unread call => split <;> rename_i read <;> cases call.symm.trans read; rfl
  | undecoded call failed =>
    split <;> rename_i read <;> cases call.symm.trans read
    rw [failed]
    rfl

theorem follow_of_read (call : s.readMessage {} = (.ok (some m), s'))
    (decoded : Metadata.decode m.metadata = .ok metadata) : follow s = entryOf (m, metadata) :: follow s' := by
  rw [follow]
  split <;> rename_i read <;> cases call.symm.trans read
  rw [decoded]
  rfl

/-- The entries are those of the messages that are accepted, and then of what stops them. -/
theorem follow_eq (h : Accepts s ms s') (stops : Stops s' last) : follow s = ms.map entryOf ++ [last] := by
  induction h with
  | nil => exact follow_of_stops stops
  | cons call decoded _ ih => rw [follow_of_read call decoded, ih stops, List.map_cons, List.cons_append]

/-- A message that can be decoded is the first of them. -/
theorem Accepts.of_read (h : Accepts s ms s') (stops : Stops s' last) {between : Source Direct}
    (call : s.readMessage {} = (.ok (some m), between))
    (decoded : Metadata.decode m.metadata = .ok metadata) :
    ∃ others, ms = (m, metadata) :: others ∧ Accepts between others s' := by
  cases h with
  | nil =>
    cases stops with
    | ended read | unread read => cases call.symm.trans read
    | undecoded read failed =>
      cases call.symm.trans read
      cases decoded.symm.trans failed
  | cons read decoded' rest =>
    cases call.symm.trans read
    cases decoded.symm.trans decoded'
    exact ⟨_, rfl, rest⟩

theorem Accepts.bodies (h : Accepts s ms s') : ∀ m ∈ ms, m.2.bodyLength = m.1.body.size := by
  induction h with
  | nil => simp
  | cons call decoded _ ih =>
    exact List.forall_mem_cons.2 ⟨(Source.stands_of_readMessage call).bodyLength_eq decoded, ih⟩

end

end Report

/-! ## A reader on the same bytes -/

namespace Reader

/-- The calls of a reader that find its stream ended, and where it is by then. -/
structure EndsAt (r : Reader Direct) (calls position : Nat) : Prop where
  finds : ∀ n, (r.afterReads n).readBatch.1 = .ok none ↔ calls ≤ n
  taken : ∀ n, calls ≤ n → (r.afterReads n).readBatch.2.source.taken = position
  iteration : ∀ bs r' last, Yields r bs r' → r'.next? = (none, last) → last.source.taken = position

theorem Yields.afterReads {σ : Type} [Device σ] {r r' : Reader σ} {bs : List Batch} (h : Yields r bs r') :
    r.afterReads bs.length = r' := by
  induction h with
  | nil => rfl
  | cons next _ ih =>
    rw [List.length_cons, afterReads_succ, next?_some_iff.1 next]
    exact ih

variable {schema : Schema} {r : Reader Direct} {s s' : Source Direct} {ms : List (Message × Metadata)}

/-- A call for each message that was accepted, whatever comes of it, brings the reader behind all of them. -/
theorem reads_accepted (h : Report.Accepts s ms s') (going : Going (fun _ => True) schema {} r) (here : r.source = s) :
    Going (fun _ => True) schema {} (r.afterReads ms.length) ∧ (r.afterReads ms.length).source = s' ∧
      ∀ n < ms.length, (r.afterReads n).readBatch.1 ≠ .ok none := by
  induction h generalizing r with
  | nil s => exact ⟨going, here, fun n fewer => absurd fewer (Nat.not_lt_zero n)⟩
  | @cons s s₁ s' m metadata ms call decoded _ ih =>
    have first : Going (fun _ => True) schema {} r.readBatch.2 ∧ r.readBatch.2.source = s₁ ∧
        r.readBatch.1 ≠ .ok none := by
      rw [readBatch, if_neg (by simp [going.finished]), going.limits, here, call]
      simp only
      -- A body that cannot be decoded is an answer like any other: the reader is behind the message all the same.
      cases batchOf r.schema m with
      | error e => exact ⟨⟨trivial, going.schema, rfl, going.finished⟩, rfl, by simp⟩
      | ok b => exact ⟨⟨trivial, going.schema, rfl, going.finished⟩, rfl, by simp⟩
    obtain ⟨going', here', brings⟩ := first
    obtain ⟨going'', here'', others⟩ := ih going' here'
    refine ⟨going'', here'', fun n fewer => ?_⟩
    cases n with
    | zero => exact brings
    | succ n => exact others n (Nat.lt_of_succ_lt_succ fewer)

theorem endsAt_of_accepted (h : Report.Accepts s ms s') {s'' : Source Direct}
    (call : s'.readMessage {} = (.ok none, s'')) (going : Going (fun _ => True) schema {} r)
    (here : r.source = s) : EndsAt r ms.length s''.taken := by
  obtain ⟨going', here', brings⟩ := reads_accepted h going here
  obtain ⟨r'', ended, there, finished⟩ : ∃ r'', (r.afterReads ms.length).readBatch = (.ok none, r'') ∧
      r''.source = s'' ∧ r''.finished = true := by
    rw [readBatch, if_neg (by simp [going'.finished]), going'.limits, here', call]
    exact ⟨_, rfl, rfl, rfl⟩
  -- The call after the last message finishes the reader, and none of the later ones changes it.
  have behind (n : Nat) (past : ms.length ≤ n) : (r.afterReads n).readBatch.1 = .ok none ∧
      (r.afterReads n).readBatch.2.source.taken = s''.taken := by
    obtain ⟨k, rfl⟩ := Nat.exists_eq_add_of_le past
    have split : r.afterReads (ms.length + k) = (r.afterReads ms.length).afterReads k := by
      rw [Nat.add_comm]
      exact Function.iterate_add_apply _ k ms.length r
    rw [split]
    cases k with
    | zero =>
      rw [afterReads, Function.iterate_zero, id, ended, there]
      exact ⟨rfl, rfl⟩
    | succ k =>
      rw [afterReads_succ, ended, afterReads_of_finished finished, readBatch_of_finished finished, there]
      exact ⟨rfl, rfl⟩
  have finds (n : Nat) : (r.afterReads n).readBatch.1 = .ok none ↔ ms.length ≤ n :=
    ⟨fun none => Nat.not_lt.1 fun fewer => brings n fewer none, fun past => (behind n past).1⟩
  refine ⟨finds, fun n past => (behind n past).2, fun bs r' last yields stopped => ?_⟩
  have none := next?_none_iff.1 stopped
  rw [← yields.afterReads] at none
  have position := (behind bs.length ((finds _).1 (congrArg Prod.fst none))).2
  rwa [none] at position

end Reader

/-! ## Reports -/

namespace Report

/-- The first two rows: the title across the table, and the titles of its columns. -/
def titles : List (List String) :=
  [["\x1b[1mMessages\x1b[0m"], ["#", "Kind", "Metadata", "Body", "Rows", "Nodes", "Buffers"]]

/-- A size for people, and the exact one in italics. -/
def sizeShown (n : Nat) : String := Size.text n ++ " (\x1b[3m" ++ toString n ++ "\x1b[0m)"

/-- The row of a message that was read: its number, its kind, the sizes of its metadata and its body, and what it
brings, which is fields or the rows, nodes and buffers of a batch. -/
def rowOf (index : Nat) : Message × Metadata → List String
  | (m, ⟨.schema schema, _⟩) =>
    [toString index, "Schema", sizeShown m.metadata.length, sizeShown m.body.size, "",
      toString schema.fields.length, "0"]
  | (m, ⟨.batch header, _⟩) =>
    [toString index, "Record Batch", sizeShown m.metadata.length, sizeShown m.body.size, toString header.numRows,
      toString header.nodes.length, toString header.regions.length]

/-- The row behind those of the messages: the end of the stream in italics, or the error. -/
def lastRow : Entry → List String
  | .ended position => ["\x1b[3mend of stream after " ++ toString position ++ " bytes\x1b[0m"]
  | .failed cause => [cause.message]
  | .message .. => []

/-- The report is about these messages, the first of which carries the schema, and then about what stops them. -/
structure Shows (report : Report) (ms : List (Message × Metadata)) (last : Entry) : Prop where
  schema : ∃ m length, ms.head? = some (m, ⟨.schema report.schema, length⟩)
  bodies : ∀ m ∈ ms, m.2.bodyLength = m.1.body.size
  entries : report.entries = ms.map entryOf ++ [last]
  rows : report.messageTable = titles ++ ms.mapIdx rowOf ++ [lastRow last]

/-- Either both begin with the schema of a first message, or neither can. -/
theorem ofBuffer_cases (data : Buffer) :
    (∃ refusal failure, ofBuffer data = .error refusal ∧ Reader.start (Source.ofBuffer data) = .error failure) ∨
      ∃ m s schema length, (Source.ofBuffer data).readMessage {} = (.ok (some m), s) ∧
        Metadata.decode m.metadata = .ok ⟨.schema schema, length⟩ ∧
        ofBuffer data = .ok ⟨schema, entryOf (m, ⟨.schema schema, length⟩) :: follow s⟩ ∧
        Reader.start (Source.ofBuffer data) = .ok { source := s, schema, limits := {} } := by
  unfold ofBuffer Reader.start
  rcases (Source.ofBuffer data).readMessage {} with ⟨e | _ | m, s⟩
  · exact .inl ⟨_, _, rfl, rfl⟩
  · exact .inl ⟨_, _, rfl, rfl⟩
  · simp only [Reader.schemaOf]
    rcases decoded : Metadata.decode m.metadata with e | ⟨schema | header, length⟩
    · exact .inl ⟨_, _, rfl, rfl⟩
    · exact .inr ⟨m, s, schema, length, rfl, decoded, rfl, rfl⟩
    · exact .inl ⟨_, _, rfl, rfl⟩

theorem sizeCell_eq (n : Nat) : sizeCell n = sizeShown n := by
  have opening : " (" ++ "\x1b[3m" = " (\x1b[3m" := by decide
  have closing : "\x1b[0m" ++ ")" = "\x1b[0m)" := by decide
  simp only [sizeCell, italic, sizeShown, ← opening, ← closing, String.append_assoc]

theorem cells_entryOf {m : Message × Metadata} (body : m.2.bodyLength = m.1.body.size) (index : Nat) :
    (entryOf m).cells index = rowOf index m := by
  obtain ⟨m, ⟨schema | header, length⟩⟩ := m
  · obtain rfl : length = m.body.size := body
    simp only [entryOf, Entry.cells, headerCells, rowOf, sizeCell_eq]
    rfl
  · obtain rfl : length = m.body.size := body
    simp only [entryOf, Entry.cells, headerCells, rowOf, sizeCell_eq]

theorem mapIdx_cells {ms : List (Message × Metadata)} (bodies : ∀ m ∈ ms, m.2.bodyLength = m.1.body.size) :
    (ms.map entryOf).mapIdx (fun index entry => entry.cells index) = ms.mapIdx rowOf := by
  refine List.mapIdx_eq_iff.2 fun i => ?_
  rw [List.getElem?_mapIdx, List.getElem?_map, Option.map_map]
  cases found : ms[i]? with
  | none => rfl
  | some m => exact congrArg some (cells_entryOf (bodies m (List.mem_of_getElem? found)) i).symm

theorem cells_last {s : Source Direct} {last : Entry} (stops : Stops s last) (index : Nat) :
    last.cells index = lastRow last := by
  cases stops with
  | ended call =>
    have opening : "\x1b[3m" ++ "end of stream after " = "\x1b[3mend of stream after " := by decide
    have closing : " bytes" ++ "\x1b[0m" = " bytes\x1b[0m" := by decide
    simp only [Entry.cells, italic, lastRow, ← opening, ← closing, String.append_assoc]
    rfl
  | unread call => rfl
  | undecoded call failed => rfl

/-- The rows show the entries, whose bodies have the lengths that are declared. -/
theorem rows_eq {report : Report} {ms : List (Message × Metadata)} {s : Source Direct} {last : Entry}
    (bodies : ∀ m ∈ ms, m.2.bodyLength = m.1.body.size) (stops : Stops s last)
    (entries : report.entries = ms.map entryOf ++ [last]) :
    report.messageTable = titles ++ ms.mapIdx rowOf ++ [lastRow last] := by
  rw [messageTable, entries, List.mapIdx_append, mapIdx_cells bodies, List.mapIdx_singleton, cells_last stops,
    List.append_assoc]
  rfl

/-- There is a report on just the streams that a reader starts on, and with the reader's schema. It has a row for each
of the messages that are read and decoded one after another from the start, numbered from zero, and then one for what
stops them. That row is about the end of the stream just where nothing else stops them, and then it gives the position
of a reader that finds the stream ended. -/
theorem report_agrees (data : Buffer) :
    ((∃ report, ofBuffer data = .ok report) ↔ ∃ r, Reader.start (Source.ofBuffer data) = .ok r) ∧
    (∃ ms s last, Accepts (Source.ofBuffer data) ms s ∧ Stops s last) ∧
    ∀ report r, ofBuffer data = .ok report → Reader.start (Source.ofBuffer data) = .ok r → r.schema = report.schema ∧
      ∀ ms s last, Accepts (Source.ofBuffer data) ms s → Stops s last → Shows report ms last ∧
        ((∃ position, last = .ended position) ↔ ∃ s', s.readMessage {} = (.ok none, s')) ∧
        ∀ position, last = .ended position → r.EndsAt (ms.length - 1) position := by
  refine ⟨?_, exists_accepted _, ?_⟩ <;>
    rcases ofBuffer_cases data with ⟨refusal, failure, refused, failed⟩ |
      ⟨m, between, schema, length, call, decoded, made, began⟩
  · exact ⟨fun ⟨_, h⟩ => (nomatch refused.symm.trans h), fun ⟨_, h⟩ => (nomatch failed.symm.trans h)⟩
  · exact ⟨fun _ => ⟨_, began⟩, fun _ => ⟨_, made⟩⟩
  · exact fun _ _ h => (nomatch refused.symm.trans h)
  intro report r made' began'
  obtain rfl := Except.ok.inj (made.symm.trans made')
  obtain rfl := Except.ok.inj (began.symm.trans began')
  refine ⟨rfl, fun ms s last accepts stops => ?_⟩
  obtain ⟨others, rfl, rest⟩ := accepts.of_read stops call decoded
  have entries : entryOf (m, ⟨.schema schema, length⟩) :: follow between =
      ((m, ⟨.schema schema, length⟩) :: others).map entryOf ++ [last] := by rw [follow_eq rest stops]; rfl
  refine ⟨⟨⟨m, length, rfl⟩, accepts.bodies, entries, rows_eq accepts.bodies stops entries⟩, ?_, ?_⟩
  · constructor
    · rintro ⟨position, rfl⟩
      cases stops with
      | ended call => exact ⟨_, call⟩
    · rintro ⟨s', ended⟩
      cases stops with
      | ended _ => exact ⟨_, rfl⟩
      | unread read | undecoded read _ => cases read.symm.trans ended
  · rintro position rfl
    cases stops with
    | ended call => exact Reader.endsAt_of_accepted rest call ⟨trivial, rfl, rfl, rfl⟩ rfl

/-- A schema twice, a batch of two rows without columns, the end marker, and a byte that is not read. -/
def twice : Buffer :=
  (Reader.bare [1, 1, 0, 0] ++ Reader.bare [1, 1, 0, 0] ++ Reader.bare [1, 2, 0, 2, 0, 0] ++ endMarker ++ [7]).toArray

/-- The report has a row for each of the three messages. The reader fails at the second schema, and goes on from it. -/
theorem report_agrees_twice : ∃ report r, ofBuffer twice = .ok report ∧ Reader.start (Source.ofBuffer twice) = .ok r ∧
    Shows report [(⟨[1, 1, 0, 0], #[]⟩, ⟨.schema ⟨[]⟩, 0⟩), (⟨[1, 1, 0, 0], #[]⟩, ⟨.schema ⟨[]⟩, 0⟩),
      (⟨[1, 2, 0, 2, 0, 0], #[]⟩, ⟨.batch ⟨2, [], []⟩, 0⟩)] (.ended 56) ∧
    report.messageTable = [["\x1b[1mMessages\x1b[0m"], ["#", "Kind", "Metadata", "Body", "Rows", "Nodes", "Buffers"],
      ["0", "Schema", "4 B (\x1b[3m4\x1b[0m)", "0 B (\x1b[3m0\x1b[0m)", "", "0", "0"],
      ["1", "Schema", "4 B (\x1b[3m4\x1b[0m)", "0 B (\x1b[3m0\x1b[0m)", "", "0", "0"],
      ["2", "Record Batch", "6 B (\x1b[3m6\x1b[0m)", "0 B (\x1b[3m0\x1b[0m)", "2", "0", "0"],
      ["\x1b[3mend of stream after 56 bytes\x1b[0m"]] ∧ r.EndsAt 2 56 := by
  have next : (Source.ofBuffer twice).ahead = Reader.bare [1, 1, 0, 0] ++ (Reader.bare [1, 1, 0, 0] ++
      (Reader.bare [1, 2, 0, 2, 0, 0] ++ (endMarker ++ [7]))) := Source.ahead_unread _ _
  have schema (rest : Bytes) : Message.Stands (Reader.bare [1, 1, 0, 0] ++ rest) ⟨[1, 1, 0, 0], #[]⟩ rest :=
    Reader.stands_bare (by decide) rfl rest
  have batch (rest : Bytes) : Message.Stands (Reader.bare [1, 2, 0, 2, 0, 0] ++ rest) ⟨[1, 2, 0, 2, 0, 0], #[]⟩ rest :=
    Reader.stands_bare (by decide) rfl rest
  have small {m : Message} (h : m.metadata.length ≤ 6) (hb : m.body.size = 0) :
      Limits.Admits {} m.metadata.length m.body.size := Limits.admits_default (by omega) (by omega)
  obtain ⟨s₁, -, first, next₁, taken₁⟩ := Source.readMessage_of_stands Direct.obliging trivial (next ▸ schema _)
    (small (by decide) rfl)
  obtain ⟨s₂, -, second, next₂, taken₂⟩ := Source.readMessage_of_stands Direct.obliging trivial (next₁ ▸ schema _)
    (small (by decide) rfl)
  obtain ⟨s₃, -, third, next₃, taken₃⟩ := Source.readMessage_of_stands Direct.obliging trivial (next₂ ▸ batch _)
    (small (by decide) rfl)
  obtain ⟨s₄, -, last, -, taken₄⟩ := Source.readMessage_end Direct.obliging {} trivial next₃
  have ended : s₄.taken = 56 := by rw [taken₄, taken₃, taken₂, taken₁]; rfl
  have began : Reader.start (Source.ofBuffer twice) = .ok { source := s₁, schema := ⟨[]⟩, limits := {} } := by
    rw [Reader.start, first]
    rfl
  obtain ⟨starts, -, agrees⟩ := report_agrees twice
  obtain ⟨report, made⟩ := starts.2 ⟨_, began⟩
  have accepts : Accepts (Source.ofBuffer twice) [(⟨[1, 1, 0, 0], #[]⟩, ⟨.schema ⟨[]⟩, 0⟩),
      (⟨[1, 1, 0, 0], #[]⟩, ⟨.schema ⟨[]⟩, 0⟩), (⟨[1, 2, 0, 2, 0, 0], #[]⟩, ⟨.batch ⟨2, [], []⟩, 0⟩)] s₃ :=
    .cons first rfl (.cons second rfl (.cons third rfl (.nil _)))
  obtain ⟨-, all⟩ := agrees report _ made began
  obtain ⟨shows, -, ends⟩ := all _ _ _ accepts (.ended last)
  rw [ended] at shows ends
  exact ⟨report, _, made, began, shows, shows.rows.trans (by decide), ends 56 rfl⟩

end Report

end ColumnStream
