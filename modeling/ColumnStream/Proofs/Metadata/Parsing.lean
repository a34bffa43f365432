/-
Parsing whatever bytes there are. A parser of the metadata either finds a value in just the bytes that it
takes off the front, so that what follows them does not matter, or it stops, and what it refuses it refuses
for a cause of its own. Therefore no part of a metadata block is taken for a whole one.
-/
import ColumnStream.Proofs.Metadata.RoundTrip
import Mathlib.Tactic

namespace ColumnStream

/-! ## Numbers -/

theorem Varint.number_ok {bytes n : Nat} {input rest : Bytes} (h : number bytes input = .ok (n, rest)) :
    ∃ taken, input = taken ++ rest ∧ ∀ more, number bytes (taken ++ more) = .ok (n, more) := by
  induction bytes generalizing input n with
  | zero => cases h
  | succ bytes ih =>
    cases input with
    | nil => cases h
    | cons b input =>
      rw [number] at h
      split at h
      · rename_i last
        cases h
        exact ⟨[b], rfl, fun more => by rw [List.singleton_append, number, if_pos last]⟩
      · rename_i further
        cases found : number bytes input with
        | error problem =>
          rw [found] at h
          cases h
        | ok read =>
          obtain ⟨high, left⟩ := read
          rw [found] at h
          cases h
          obtain ⟨taken, rfl, reads⟩ := ih found
          exact ⟨b :: taken, rfl, fun more => by rw [List.cons_append, number, if_neg further, reads more]; rfl⟩

theorem Varint.decode_eq_ok {n : Nat} {input rest : Bytes} :
    decode input = .ok (n, rest) ↔ ∃ m, number maxBytes input = .ok (m, rest) ∧ n = m % wordSize := by
  unfold decode
  cases number maxBytes input with
  | error problem => exact ⟨fun h => (nomatch h), fun ⟨_, h, _⟩ => (nomatch h)⟩
  | ok read =>
    obtain ⟨m, left⟩ := read
    constructor
    · intro h
      cases h
      exact ⟨m, rfl, rfl⟩
    · rintro ⟨m, h, rfl⟩
      cases h
      rfl

theorem Varint.decode_ok {n : Nat} {input rest : Bytes} (h : decode input = .ok (n, rest)) :
    ∃ taken, input = taken ++ rest ∧ ∀ more, decode (taken ++ more) = .ok (n, more) := by
  obtain ⟨m, found, rfl⟩ := decode_eq_ok.1 h
  obtain ⟨taken, rfl, reads⟩ := number_ok found
  exact ⟨taken, rfl, fun more => decode_eq_ok.2 ⟨m, reads more, rfl⟩⟩

theorem Varint.decode_lt {n : Nat} {input rest : Bytes} (h : decode input = .ok (n, rest)) : n < wordSize := by
  obtain ⟨m, -, rfl⟩ := decode_eq_ok.1 h
  exact Nat.mod_lt _ (by decide)

/-! ## Parsers on any input -/

namespace Parser

variable {α β : Type} {causes : Error → Prop}

/-- The parser takes a value's own bytes off the front or stops, and refuses only for these causes. -/
structure Orderly (causes : Error → Prop) (p : Parser α) : Prop where
  found : ∀ {input rest a}, p input = .ok (a, rest) → ∃ taken, input = taken ++ rest ∧ p.Reads taken a
  refused : ∀ {input cause}, p input = .error (.refused cause) → causes cause

theorem bind_cases (p : Parser α) (f : α → Parser β) (input : Bytes) :
    (∃ reason, p input = .error reason ∧ (p >>= f) input = .error reason) ∨
      ∃ a rest, p input = .ok (a, rest) ∧ (p >>= f) input = f a rest := by
  cases ran : p input with
  | error reason => exact .inl ⟨reason, rfl, bind_stop ran⟩
  | ok read => exact .inr ⟨read.1, read.2, rfl, bind_apply ran⟩

theorem found_bind {p : Parser α} {f : α → Parser β} {input rest : Bytes} {b : β} :
    (p >>= f) input = .ok (b, rest) ↔ ∃ a left, p input = .ok (a, left) ∧ f a left = .ok (b, rest) := by
  constructor
  · intro h
    rcases bind_cases p f input with ⟨reason, -, stopped⟩ | ⟨a, left, ran, applied⟩
    · rw [stopped] at h
      cases h
    · exact ⟨a, left, ran, applied.symm.trans h⟩
  · rintro ⟨a, left, ran, h⟩
    rw [bind_apply ran, h]

namespace Orderly

theorem pure (a : α) : Orderly causes (pure a : Parser α) where
  found h := by
    cases h
    exact ⟨[], rfl, Reads.pure a⟩
  refused h := by cases h

theorem refuse {cause : Error} (allowed : causes cause) : Orderly causes (refuse cause : Parser α) where
  found h := by cases h
  refused h := by
    cases h
    exact allowed

theorem bind {p : Parser α} {f : α → Parser β} (first : Orderly causes p) (next : ∀ a, Orderly causes (f a)) :
    Orderly causes (p >>= f) where
  found {input rest b} h := by
    obtain ⟨a, left, ran, last⟩ := found_bind.1 h
    obtain ⟨x, rfl, reads⟩ := first.found ran
    obtain ⟨y, rfl, reads'⟩ := (next a).found last
    exact ⟨x ++ y, (List.append_assoc x y rest).symm, reads.bind reads'⟩
  refused {input cause} h := by
    rcases bind_cases p f input with ⟨reason, ran, stopped⟩ | ⟨a, mid, -, applied⟩
    · rw [stopped] at h
      cases h
      exact first.refused ran
    · exact (next a).refused (applied ▸ h)

theorem mono {p : Parser α} {causes' : Error → Prop} (h : Orderly causes p)
    (le : ∀ cause, causes cause → causes' cause) : Orderly causes' p :=
  ⟨h.found, fun refused => le _ (h.refused refused)⟩

/-- What is found in some bytes is found in them however they go on. -/
theorem extend {p : Parser α} (h : Orderly causes p) {input rest : Bytes} {a : α} (ran : p input = .ok (a, rest))
    (more : Bytes) : p (input ++ more) = .ok (a, rest ++ more) := by
  obtain ⟨taken, rfl, reads⟩ := h.found ran
  rw [List.append_assoc, reads]

/-- No part of the bytes of a value is taken for a whole value. -/
theorem stops_short {p : Parser α} (h : Orderly causes p) {x y : Bytes} {a : α} (reads : p.Reads x a) (first : y <+: x)
    (strict : y ≠ x) : ∃ reason, p y = .error reason := by
  cases ran : p y with
  | error reason => exact ⟨reason, rfl⟩
  | ok read =>
    obtain ⟨b, rest⟩ := read
    obtain ⟨missing, rfl⟩ := first
    obtain ⟨taken, rfl, reads'⟩ := h.found ran
    -- What `y` lacks of `x` would be left over as well if the parser had found a value in `y`.
    have whole := reads []
    rw [List.append_nil, List.append_assoc, reads'] at whole
    have none : rest ++ missing = [] := congrArg Prod.snd (Except.ok.inj whole)
    rw [(List.append_eq_nil_iff.1 none).2] at strict
    exact absurd (List.append_nil _).symm strict

/-- Running a parser brings a value, or fails for one of the parser's causes if the report's wordings are among
them. -/
theorem run_cases {p : Parser α} (h : Orderly causes p) {report : ParseProblem → Error}
    (worded : ∀ problem, causes (report problem)) (input : Bytes) :
    (∃ a rest, p input = .ok (a, rest) ∧ p.run report input = .ok (a, rest)) ∨
      ∃ cause, p.run report input = fail cause ∧ causes cause := by
  unfold run
  cases ran : p input with
  | ok read => exact .inl ⟨read.1, read.2, rfl, rfl⟩
  | error reason =>
    cases reason with
    | unreadable problem => exact .inr ⟨report problem, rfl, worded problem⟩
    | refused cause => exact .inr ⟨cause, rfl, h.refused ran⟩

end Orderly

theorem orderly_byte : Orderly causes byte where
  found {input rest b} h := by
    cases input with
    | nil => cases h
    | cons c input =>
      cases h
      exact ⟨[b], rfl, reads_byte b⟩
  refused {input cause} h := by cases input <;> cases h

theorem orderly_varint : Orderly causes varint where
  found h := by
    obtain ⟨taken, rfl, reads⟩ := Varint.decode_ok (varint_eq_ok.1 h)
    exact ⟨taken, rfl, fun more => varint_eq_ok.2 (reads more)⟩
  refused {input cause} h := by
    unfold varint at h
    split at h <;> cases h

theorem orderly_bytes (count : Nat) : Orderly causes (bytes count) where
  found {input rest x} h := by
    simp only [bytes] at h
    split at h
    · rename_i enough
      cases h
      refine ⟨input.take count, (List.take_append_drop count input).symm, ?_⟩
      have := reads_bytes (input.take count)
      rwa [enough] at this
    · cases h
  refused {input cause} h := by
    simp only [bytes] at h
    split at h <;> cases h

/-! ### Items in a row -/

open Parsing (times counted)

theorem Orderly.times {item : Parser α} (h : Orderly causes item) (count : Nat) :
    Orderly causes (times count item) := by
  induction count with
  | zero =>
    rw [times_zero]
    exact .pure []
  | succ count ih =>
    rw [times_succ]
    exact h.bind fun a => ih.bind fun items => .pure _

theorem Orderly.counted {item : Parser α} (h : Orderly causes item) : Orderly causes (counted item) :=
  orderly_varint.bind fun count => h.times count

end Parser

/-! ## The parsers of metadata -/

namespace Metadata

open ColumnStream.Parser

theorem orderly_field {type : Parser DataType} (h : Orderly Error.Malformed type) :
    Orderly Error.Malformed (parseField type) := by
  refine orderly_varint.bind fun length => (orderly_bytes length).bind fun name => orderly_byte.bind fun flag =>
    h.bind fun t => ?_
  split
  · exact .refuse ⟨_, rfl⟩
  · split
    · exact .pure _
    · split
      · exact .pure _
      · exact .refuse ⟨_, rfl⟩

theorem orderly_type (levels : Nat) : Orderly Error.Malformed (parseType levels) := by
  induction levels with
  | zero => exact .refuse ⟨_, rfl⟩
  | succ levels ih =>
    rw [parseType_succ]
    refine orderly_byte.bind fun tag => ?_
    split
    · exact (orderly_field ih).bind fun item => .pure _
    · split
      · refine orderly_varint.bind fun count => ?_
        split
        · exact .refuse ⟨_, rfl⟩
        · exact ((orderly_field ih).times count).bind fun members => .pure _
      · split
        · exact .pure _
        · exact .refuse ⟨_, rfl⟩

theorem orderly_schema : Orderly Error.Malformed parseSchema :=
  (orderly_field (orderly_type maxLevels)).counted.bind fun _ => .pure _

theorem orderly_pair {α : Type} {causes : Error → Prop} (make : Nat → Nat → α) :
    Orderly causes (do return make (← varint) (← varint)) :=
  orderly_varint.bind fun _ => orderly_varint.bind fun _ => .pure _

/-- The numbers of a batch header are refused for no cause at all. -/
theorem orderly_batchHeader {causes : Error → Prop} : Orderly causes parseBatchHeader :=
  orderly_varint.bind fun _ => (orderly_pair Node.mk).counted.bind fun _ =>
    (orderly_pair Region.mk).counted.bind fun _ => .pure _

theorem orderly_prelude : Orderly Error.Corrupt parsePrelude := by
  refine orderly_byte.bind fun version => ?_
  split
  · exact .refuse ⟨_, rfl⟩
  · refine orderly_byte.bind fun tag => ?_
    split
    · exact .refuse ⟨_, rfl⟩
    · exact orderly_varint.bind fun _ => .pure _

/-! ## Metadata blocks -/

/-- The bytes begin with the prelude of a message of that kind. -/
def Opens (kind : MessageKind) (input : Bytes) : Prop :=
  ∃ number length rest, input = metadataVersion :: kind.tag :: number ∧ Varint.decode number = .ok (length, rest)

theorem opens_iff {kind : MessageKind} {input : Bytes} :
    Opens kind input ↔ ∃ length rest, parsePrelude input = .ok ((kind, length), rest) := by
  constructor
  · rintro ⟨number, length, rest, rfl, read⟩
    exact ⟨length, rest, parsePrelude_eq_ok.2 ⟨number, rfl, read⟩⟩
  · rintro ⟨length, rest, prelude⟩
    obtain ⟨number, rfl, read⟩ := parsePrelude_eq_ok.1 prelude
    exact ⟨number, length, rest, rfl, read⟩

/-- Decoding finds metadata behind a prelude of its kind, or fails: at the schema behind a prelude of a schema
message, and at the stream otherwise. -/
theorem decode_cases (input : Bytes) :
    (∃ m, decode input = .ok m ∧ Opens m.header.kind input) ∨
      (Opens .schema input ∧ ∃ cause, decode input = fail cause ∧ cause.Malformed) ∨
        (¬ Opens .schema input ∧ ∃ cause, decode input = fail cause ∧ cause.Corrupt) := by
  rcases orderly_prelude.run_cases (fun problem => ⟨.unreadable problem, rfl⟩) input with
    ⟨⟨kind, length⟩, rest, read, ran⟩ | ⟨cause, ran, corrupt⟩
  · have opens : Opens kind input := opens_iff.2 ⟨length, rest, read⟩
    rw [decode, ran, ok_bind]
    cases kind with
    | schema =>
      rcases orderly_schema.run_cases (fun problem => ⟨.unreadable problem, rfl⟩) rest with
        ⟨schema, left, -, ran⟩ | ⟨cause, ran, malformed⟩
      · exact .inl ⟨⟨.schema schema, length⟩, by simp only [ran]; rfl, opens⟩
      · exact .inr (.inl ⟨opens, cause, by simp only [ran]; rfl, malformed⟩)
    | batch =>
      have other : ¬ Opens .schema input := by
        rintro opens'
        obtain ⟨length', rest', read'⟩ := opens_iff.1 opens'
        cases read.symm.trans read'
      have orderly : Orderly Error.Corrupt parseBatchHeader := orderly_batchHeader
      rcases orderly.run_cases (fun problem => ⟨.unreadable problem, rfl⟩) rest with
        ⟨header, left, -, ran⟩ | ⟨cause, ran, corrupt⟩
      · exact .inl ⟨⟨.batch header, length⟩, by simp only [ran]; rfl, opens⟩
      · exact .inr (.inr ⟨other, cause, by simp only [ran]; rfl, corrupt⟩)
  · refine .inr (.inr ⟨fun opens => ?_, cause, by rw [decode, ran]; rfl, corrupt⟩)
    obtain ⟨length, rest, read⟩ := opens_iff.1 opens
    cases ran.symm.trans (run_eq_ok.2 read)

/-! ### Blocks as a whole -/

def parseHeader : MessageKind → Parser Header
  | .schema => do return .schema (← parseSchema)
  | .batch => do return .batch (← parseBatchHeader)

/-- The parts of a metadata block one after another. Decoding differs only in how it words a failure. -/
def parseBlock : Parser Metadata := do
  let (kind, length) ← parsePrelude
  return ⟨← parseHeader kind, length⟩

theorem orderly_block : Orderly (fun _ => True) parseBlock := by
  refine (orderly_prelude.mono fun _ _ => trivial).bind fun ⟨kind, length⟩ => Orderly.bind ?_ fun _ => .pure _
  cases kind with
  | schema => exact (orderly_schema.mono fun _ _ => trivial).bind fun _ => .pure _
  | batch => exact orderly_batchHeader.bind fun _ => .pure _

theorem decode_eq_ok {input : Bytes} {m : Metadata} :
    decode input = .ok m ↔ ∃ rest, parseBlock input = .ok (m, rest) := by
  rw [decode, bind_eq_ok]
  constructor
  · rintro ⟨⟨⟨kind, length⟩, left⟩, prelude, h⟩
    rw [parseBlock, bind_apply (run_eq_ok.1 prelude)]
    cases kind with
    | schema =>
      obtain ⟨⟨schema, rest⟩, header, h⟩ := bind_eq_ok.1 h
      cases h
      exact ⟨rest, bind_apply (bind_apply (run_eq_ok.1 header))⟩
    | batch =>
      obtain ⟨⟨batch, rest⟩, header, h⟩ := bind_eq_ok.1 h
      cases h
      exact ⟨rest, bind_apply (bind_apply (run_eq_ok.1 header))⟩
  · rintro ⟨rest, h⟩
    obtain ⟨⟨kind, length⟩, left, prelude, h⟩ := found_bind.1 h
    obtain ⟨header, left', read, last⟩ := found_bind.1 h
    cases last
    refine ⟨_, run_eq_ok.2 prelude, ?_⟩
    cases kind with
    | schema =>
      obtain ⟨schema, left', found, last⟩ := found_bind.1 read
      cases last
      exact bind_eq_ok.2 ⟨_, run_eq_ok.2 found, rfl⟩
    | batch =>
      obtain ⟨batch, left', found, last⟩ := found_bind.1 read
      cases last
      exact bind_eq_ok.2 ⟨_, run_eq_ok.2 found, rfl⟩

/-- Bytes after a metadata block make no difference. -/
theorem decode_append {input : Bytes} {m : Metadata} (h : decode input = .ok m) (more : Bytes) :
    decode (input ++ more) = .ok m := by
  obtain ⟨rest, found⟩ := decode_eq_ok.1 h
  exact decode_eq_ok.2 ⟨rest ++ more, orderly_block.extend found more⟩

/-- The number of rows of a batch that was read is a machine word. -/
theorem numRows_lt {input : Bytes} {m : Metadata} {header : BatchHeader} (h : decode input = .ok m)
    (batch : m.header = .batch header) : header.numRows < wordSize := by
  obtain ⟨rest, h⟩ := decode_eq_ok.1 h
  obtain ⟨⟨kind, length⟩, left, -, h⟩ := found_bind.1 h
  obtain ⟨found, left', read, last⟩ := found_bind.1 h
  cases last
  cases batch
  cases kind with
  | schema =>
    obtain ⟨schema, _, -, last⟩ := found_bind.1 read
    cases last
  | batch =>
    obtain ⟨header, _, parsed, last⟩ := found_bind.1 read
    cases last
    obtain ⟨rows, _, number, rest⟩ := found_bind.1 parsed
    obtain ⟨nodes, _, -, rest⟩ := found_bind.1 rest
    obtain ⟨regions, _, -, last⟩ := found_bind.1 rest
    cases last
    exact Varint.decode_lt (varint_eq_ok.1 number)

/-- The block reads just what was written. -/
theorem reads_block {m : Metadata} {x : Bytes} (h : encode m = .ok x) : Reads parseBlock x m := by
  obtain ⟨length, header, hlength, hheader, rfl⟩ := encode_ok h
  obtain ⟨kind, bodyLength⟩ := m
  refine (reads_prelude _ hlength).bind (Reads.map ?_ (Reads.pure _))
  cases kind with
  | schema schema => exact (reads_schema hheader).map (Reads.pure _)
  | batch batch => exact (reads_batchHeader hheader).map (Reads.pure _)

/-- What is written of some metadata is read back as just that metadata, whatever follows it; no first part of it
is read as any. -/
theorem encode_selfDelimiting {m : Metadata} {x : Bytes} (h : encode m = .ok x) :
    (∀ rest, decode (x ++ rest) = .ok m) ∧ ∀ y, y <+: x → y ≠ x → ∃ cause, decode y = fail cause := by
  refine ⟨decode_encode h, fun y first strict => ?_⟩
  obtain ⟨reason, stopped⟩ := orderly_block.stops_short (reads_block h) first strict
  rcases decode_cases y with ⟨m', read, -⟩ | ⟨-, cause, failed, -⟩ | ⟨-, cause, failed, -⟩
  · obtain ⟨rest, found⟩ := decode_eq_ok.1 read
    cases stopped.symm.trans found
  · exact ⟨cause, failed⟩
  · exact ⟨cause, failed⟩

/-- A schema message with a list of structs, declaring a length that takes two bytes. -/
def points : Metadata :=
  ⟨.schema ⟨[⟨"points", .list ⟨"p", .struct [⟨"x", .fixed .int64, false⟩, ⟨"at", .utf8, true⟩], true⟩, false⟩]⟩, 300⟩

theorem encode_selfDelimiting_points :
    ∃ x, encode points = .ok x ∧ x.length = 28 ∧ decode (x ++ [0, 0, 0, 0, 0]) = .ok points ∧
      ∀ count < 28, ∃ cause, decode (x.take count) = fail cause := by
  have written : encode points = .ok [1, 1, 172, 2, 1, 6, 112, 111, 105, 110, 116, 115, 0, 32, 1, 112, 1, 33, 2, 1, 120,
      0, 5, 2, 97, 116, 1, 17] := by decide +kernel
  obtain ⟨whole, short⟩ := encode_selfDelimiting written
  refine ⟨_, written, rfl, whole _, fun count less => short _ (List.take_prefix ..) fun same => ?_⟩
  have := congrArg List.length same
  simp at this
  omega

end Metadata

end ColumnStream
