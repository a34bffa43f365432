/-
Reading a message as a function of the bytes. `Limits.reading` finds a message, the end of a stream or neither
by positions in the bytes that are there; a reader finds just the same, however the source delivers them. What
it does besides, on a device that fails or with a body so long that its padding passes the word, is listed in
`Source.readMessage_cases`.
-/
import ColumnStream.Proofs.Message
import ColumnStream.Proofs.Metadata.Parsing

namespace ColumnStream

/-! ## Reading by position -/

/-- What the bytes at some place are to a reader, and how many of them it takes. -/
inductive Reading
  | ended (taken : Nat)
  | found (m : Message) (taken : Nat)
  | corrupt
  deriving DecidableEq, Repr

namespace Limits

def reading (limits : Limits) (x : Bytes) : Reading :=
  if x = [] then .ended 0
  else if x.length < markerLength ∨ x.take 4 ≠ continuation then .corrupt
  else
    let length := Bytes.toNat ((x.drop 4).take 4)
    if length = 0 then .ended markerLength
    else
      let metadata := (x.drop markerLength).take length
      match Metadata.parsePrelude metadata with
      | .error _ => .corrupt
      | .ok ((_, bodyLength), _) =>
        let start := markerLength + padded length
        if length ≤ limits.maxMetadata ∧ bodyLength ≤ limits.maxBody ∧ start + padded bodyLength ≤ x.length then
          .found ⟨metadata, ((x.drop start).take bodyLength).toArray⟩ (start + padded bodyLength)
        else .corrupt

theorem reading_nil (limits : Limits) : limits.reading [] = .ended 0 := rfl

theorem reading_endMarker (limits : Limits) (rest : Bytes) :
    limits.reading (endMarker ++ rest) = .ended markerLength := by
  rfl

/-- A part of the bytes, and what is behind it. -/
theorem drop_eq_part (x : Bytes) (start count : Nat) :
    x.drop start = (x.drop start).take count ++ x.drop (start + count) := by
  rw [← List.drop_drop, List.take_append_drop]

theorem length_part {x : Bytes} {start count : Nat} (h : start + count ≤ x.length) :
    ((x.drop start).take count).length = count := by
  rw [List.length_take, List.length_drop]
  omega

theorem announces_at {x left : Bytes} {kind : MessageKind} {n : Nat} (eight : markerLength ≤ x.length)
    (begins : x.take 4 = continuation)
    (prelude : Metadata.parsePrelude ((x.drop markerLength).take (Bytes.toNat ((x.drop 4).take 4))) =
      .ok ((kind, n), left))
    (inside : markerLength + padded (Bytes.toNat ((x.drop 4).take 4)) ≤ x.length) :
    Message.Announces x ((x.drop markerLength).take (Bytes.toNat ((x.drop 4).take 4))) n
      (x.drop (markerLength + padded (Bytes.toNat ((x.drop 4).take 4)))) := by
  have four : ((x.drop 4).take 4).length = 4 := length_part eight
  have head : x = continuation ++ (x.drop 4).take 4 ++ x.drop markerLength := by
    rw [← begins, List.append_assoc, show markerLength = 4 + 4 from rfl, ← drop_eq_part, List.take_append_drop]
  generalize value : Bytes.toNat ((x.drop 4).take 4) = length at *
  have size : ((x.drop markerLength).take length).length = length := length_part (by unfold padded at inside; omega)
  have tail : x.drop markerLength = (x.drop markerLength).take length ++
      (x.drop (markerLength + length)).take (padding length) ++ x.drop (markerLength + padded length) := by
    rw [List.append_assoc, padded, ← Nat.add_assoc, ← drop_eq_part, ← drop_eq_part]
  have padLength : ((x.drop (markerLength + length)).take (padding length)).length = padding length :=
    length_part (by unfold padded at inside; omega)
  exact .of_parts head tail four (value.trans size.symm) (padLength.trans (congrArg padding size.symm)) prelude

/-- A message that stands there, within the limits, is found. -/
theorem reading_of_stands {limits : Limits} {x rest : Bytes} {m : Message} (stands : m.Stands x rest)
    (metadata : m.metadata.length ≤ limits.maxMetadata) (body : m.body.size ≤ limits.maxBody) :
    limits.reading x = .found m m.size := by
  have some := List.length_pos_iff.2 stands.metadata_ne_nil
  have total := stands.length_eq
  obtain ⟨y, same⟩ : ∃ y, x = y := ⟨x, rfl⟩
  rw [same] at stands
  cases stands with
  | @intro _ _ length pad pad' left kind four value padLength padLength' prelude =>
    simp only [List.append_assoc] at same
    have marker : x.take 4 = continuation := by rw [same]; exact List.take_left' rfl
    have spelled : (x.drop 4).take 4 = length := by
      rw [same, show 4 = continuation.length from rfl, List.drop_left]
      exact List.take_left' four
    have behind : x.drop markerLength = m.metadata ++ (pad ++ (m.body.toList ++ (pad' ++ rest))) := by
      rw [same, ← List.append_assoc, List.drop_left' (by simp [four, continuation, markerLength])]
    have first : (x.drop markerLength).take m.metadata.length = m.metadata := by rw [behind, List.take_left]
    have second : (x.drop (markerLength + padded m.metadata.length)).take m.body.size = m.body.toList := by
      rw [← List.drop_drop, behind, ← List.append_assoc, List.drop_left' (by simp [padLength, padded]),
        List.take_left' (by simp)]
    rw [Message.size, Nat.add_assoc] at total
    rw [reading, if_neg (List.ne_nil_of_length_pos (by rw [total]; unfold markerLength; omega)),
      if_neg (not_or.2 ⟨by omega, not_not.2 marker⟩)]
    simp only [spelled, value, first, second, prelude]
    rw [if_neg some.ne', if_pos ⟨metadata, body, by omega⟩]
    rfl

/-- What is found stands there. -/
theorem found_of_reading {limits : Limits} {x : Bytes} {m : Message} {n : Nat} (h : limits.reading x = .found m n) :
    n = m.size ∧ m.Stands x (x.drop n) ∧ m.metadata.length ≤ limits.maxMetadata ∧ m.body.size ≤ limits.maxBody := by
  unfold reading at h
  split at h
  · cases h
  split at h
  · cases h
  rename_i marker
  obtain ⟨eight, begins⟩ := not_or.1 marker
  simp only at h
  split at h
  · cases h
  split at h
  · cases h
  rename_i kind bodyLength left prelude
  split at h
  · rename_i within
    obtain ⟨metadata, body, inside⟩ := within
    cases h
    have announces := announces_at (Nat.not_lt.1 eight) (of_not_not begins) prelude (by omega)
    generalize Bytes.toNat ((x.drop 4).take 4) = length at *
    generalize start_eq : markerLength + padded length = start at *
    have end_eq : start + padded bodyLength = start + bodyLength + padding bodyLength := by
      unfold padded
      omega
    have metadataSize : ((x.drop markerLength).take length).length = length :=
      length_part (by unfold padded at start_eq; omega)
    have bodySize : ((x.drop start).take bodyLength).length = bodyLength := length_part (by omega)
    refine ⟨?_, Message.Stands.iff_announces.2
      ⟨(x.drop (start + bodyLength)).take (padding bodyLength), ?_, ?_⟩, ?_, ?_⟩
    · rw [Message.size, List.size_toArray, metadataSize, bodySize, start_eq]
    · rw [List.size_toArray, bodySize]
      exact length_part (by omega)
    · rwa [List.size_toArray, bodySize, List.append_assoc, end_eq, ← drop_eq_part, ← drop_eq_part]
    · rwa [metadataSize]
    · rwa [List.size_toArray, bodySize]
  · cases h

theorem ended_of_reading {limits : Limits} {x : Bytes} {n : Nat} (h : limits.reading x = .ended n) :
    (n = 0 ∧ x = []) ∨ (n = markerLength ∧ ∃ rest, x = endMarker ++ rest) := by
  unfold reading at h
  split at h
  · cases h
    exact .inl ⟨rfl, by assumption⟩
  split at h
  · cases h
  rename_i marker
  obtain ⟨eight, begins⟩ := not_or.1 marker
  simp only at h
  split at h
  · rename_i zero
    cases h
    have four : ((x.drop 4).take 4).length = 4 := by
      rw [List.length_take, List.length_drop]
      unfold markerLength at eight
      omega
    have zeros := Bytes.ofNat_toNat ((x.drop 4).take 4)
    rw [four, zero] at zeros
    refine .inr ⟨rfl, (x.drop 4).drop 4, ?_⟩
    rw [endMarker, List.append_assoc, ← of_not_not begins, show Bytes.zeros 4 = Bytes.ofNat 4 0 from rfl, zeros,
      List.take_append_drop, List.take_append_drop]
  split at h
  · cases h
  split at h <;> cases h

/-- A body that is announced, but not there with its padding, leaves nothing to be read. -/
theorem reading_of_lacking {limits : Limits} {x metadata rest : Bytes} {n : Nat}
    (announces : Message.Announces x metadata n rest) (lacking : rest.length < padded n) :
    limits.reading x = .corrupt := by
  cases reads : limits.reading x with
  | corrupt => rfl
  | ended taken =>
    rcases ended_of_reading reads with ⟨-, rfl⟩ | ⟨-, further, rfl⟩
    · exact absurd announces Message.Announces.not_nil
    · exact absurd announces Message.Announces.not_endMarker
  | found m taken =>
    obtain ⟨-, stands, -, -⟩ := found_of_reading reads
    obtain ⟨pad, padLength, announces'⟩ := Message.Stands.iff_announces.1 stands
    obtain ⟨-, rfl, rfl⟩ := announces.unique announces'
    simp only [List.length_append, Array.length_toList, padLength, padded] at lacking
    omega

/-! ## Lengths past the word -/

/-- The padding passes the word only behind the last multiple of the alignment. -/
theorem wordSize_le_padded_iff {n : Nat} : wordSize ≤ padded n ↔ wordSize < n + alignment := by
  unfold padded padding alignment wordSize
  omega

/-- The bytes begin with metadata within the limits, and the body that it announces is within them too, but its padded
length passes the word. -/
def Overlong (limits : Limits) (x : Bytes) : Prop :=
  ∃ metadata n rest, Message.Announces x metadata n rest ∧ metadata.length ≤ limits.maxMetadata ∧ n ≤ limits.maxBody ∧
    wordSize < n + alignment

theorem not_overlong {limits : Limits} (bounded : limits.maxBody + alignment ≤ wordSize) (x : Bytes) :
    ¬ limits.Overlong x := by
  rintro ⟨metadata, n, rest, -, -, body, long⟩
  omega

/-- The largest bound on a body whose padding stays in the word, and memory without bounds. -/
def widest : Limits := { maxBody := wordSize - alignment, block := none }

theorem holds_of_le {limits : Limits} (unlimited : limits.block = none) {n : Nat} (h : n + alignment ≤ wordSize) :
    limits.Holds n := by
  refine ⟨?_, fun most block => ?_⟩
  · rw [← not_le, wordSize_le_padded_iff]
    omega
  · rw [unlimited] at block
    cases block

theorem room_of_overlong (limits : Limits) {n : Nat} (h : wordSize < n + alignment) :
    limits.room n = misuse .overflow := by
  have long : ¬ n + padding n < wordSize := Nat.not_lt.2 (wordSize_le_padded_iff.2 h)
  rw [room, Word.add, if_neg long]
  rfl

theorem answers_metadataLength (limits : Limits) (found : Buffer) :
    Answers Error.Corrupt (fun _ => True) (limits.metadataLength found) := by
  unfold metadataLength
  split
  · trivial
  split
  · exact ⟨_, rfl⟩
  unfold ofMarker
  split
  · exact ⟨_, rfl⟩
  simp only
  split
  · trivial
  split
  · exact ⟨_, rfl⟩
  · trivial

theorem answers_bodyLength (limits : Limits) (metadata : Bytes) :
    Answers Error.Corrupt (fun _ => True) (limits.bodyLength metadata) := by
  unfold bodyLength
  rcases Metadata.orderly_prelude.run_cases (fun problem => ⟨.prelude problem, rfl⟩) metadata with
     ⟨⟨kind, length⟩, left, -, ran⟩ | ⟨cause, ran, corrupt⟩
  · rw [ran, ok_bind]
    simp only
    split
    · exact ⟨_, rfl⟩
    · trivial
  · rw [ran]
    exact corrupt

end Limits

/-- What four bytes spell is not near the end of the word. -/
theorem Bytes.toNat_room {spelling : Bytes} (four : spelling.length = 4) :
    Bytes.toNat spelling + alignment ≤ wordSize := by
  have small := Bytes.toNat_lt spelling
  have room : Bytes.card 4 + alignment ≤ wordSize := by decide
  rw [four] at small
  omega

theorem Message.Announces.metadata_room {x metadata rest : Bytes} {n : Nat} (h : Announces x metadata n rest) :
    metadata.length + alignment ≤ wordSize := by
  obtain ⟨four, value, -, -⟩ := h
  exact value ▸ Bytes.toNat_room four

namespace Message.Stands

variable {x rest : Bytes} {m : Message}

/-- The metadata as a whole gives the length of the body just as its prelude does. -/
theorem bodyLength_eq (h : Stands x m rest) {decoded : Metadata} (ran : Metadata.decode m.metadata = .ok decoded) :
    decoded.bodyLength = m.body.size := by
  obtain ⟨-, -, -, -, prelude⟩ := h
  obtain ⟨left, block⟩ := Metadata.decode_eq_ok.1 ran
  obtain ⟨_, _, prelude', block⟩ := Parser.found_bind.1 block
  obtain ⟨header, _, -, last⟩ := Parser.found_bind.1 block
  cases last
  exact congrArg (·.1.2) (Except.ok.inj (prelude'.symm.trans prelude))

end Message.Stands

namespace Source

variable {σ : Type} [Device σ]

/-! ## Reading from any source -/

/-- Asked for bytes in one of these states, a device leaves them or brings an error for one of the causes. -/
structure Fills (ready : σ → Prop) (causes : Error → Prop) : Prop where
  answers : ∀ (s : Source σ) count, ready s.device → Answers causes (fun _ => True) (s.fill count).1
  keeps : ∀ (s : Source σ) count, ready s.device → ready (s.fill count).2.device

/-- A device fails only for causes of its own. -/
theorem fills_any : Fills (fun _ : σ => True) fun cause => ∃ e, cause = .device e := by
  refine ⟨fun s count _ => ?_, fun _ _ _ => trivial⟩
  have advanced : Answers (fun cause => ∃ e, cause = .device e) (fun _ => True) (s.advance count).1 := by
    fun_induction advance s count with
    | case1 s => trivial
    | case2 s count more s' call => trivial
    | case3 s count more moved s' call ih => exact ih
    | case4 s count more s' call ih => exact ih
    | case5 s count more cause s' other call => exact ⟨cause, rfl⟩
  unfold fill
  split <;> rename_i ran <;> rw [ran] at advanced
  · exact advanced.error
  · trivial

/-- A device that always moves on, and answers at the end of the data, brings as many bytes as there are. -/
theorem fill_delivering {ready : σ → Prop} (obliging : Device.Obliging ready) (ending : Device.Ending ready)
    {s : Source σ} (h : ready s.device) (count : Nat) :
    ∃ s', ready s'.device ∧ s.fill count = (.ok (s.ahead.take count).toArray, s') := by
  by_cases enough : count ≤ s.ahead.length
  · obtain ⟨s', ready', filled, -⟩ := fill_obliging obliging h (List.take_append_drop count s.ahead).symm
    rw [List.length_take, Nat.min_eq_left enough] at filled
    exact ⟨s', ready', filled⟩
  · obtain ⟨s', ready', filled, -⟩ := fill_ending obliging ending h (Nat.not_le.1 enough)
    exact ⟨s', ready', by rw [filled, List.take_of_length_le (Nat.le_of_not_le enough)]⟩

theorem fills_ending {ready : σ → Prop} (obliging : Device.Obliging ready) (ending : Device.Ending ready) :
    Fills ready fun _ => False := by
  constructor <;> intro s count h <;> obtain ⟨s', ready', filled⟩ := fill_delivering obliging ending h count <;>
    rw [filled]
  · trivial
  · exact ready'

section

variable {ready : σ → Prop} {causes : Error → Prop} {limits : Limits}

theorem answers_readSection (fills : Fills ready causes) (part : Section) {length : Nat}
    (holds : limits.Holds length) {s : Source σ} (h : ready s.device) :
    Answers (fun cause => causes cause ∨ cause.Corrupt) (fun _ => True) (s.readSection limits part length).1 ∧
      ready (s.readSection limits part length).2.device := by
  have answers := fills.answers s (padded length) h
  have keeps := fills.keeps s (padded length) h
  rw [readSection, Limits.room_eq_ok holds]
  simp only
  split <;> rename_i ran <;> rw [ran] at answers keeps
  · exact ⟨(answers.widen fun _ => .inl).error, keeps⟩
  · rename_i found s₁
    refine ⟨?_, keeps⟩
    rcases part.finish_cases length (padded length) found with finished | finished <;> simp only [finished]
    · exact .inr ⟨_, rfl⟩
    · trivial

/-- What the bytes must be for the answer. -/
def Finds (limits : Limits) (s : Source σ) : Option Message → Prop
  | none => (s.fill markerLength).1 = .ok #[] ∨ ∃ rest, s.ahead = endMarker ++ rest
  | some m => ∃ rest, m.Stands s.ahead rest ∧ m.metadata.length ≤ limits.maxMetadata ∧ m.body.size ≤ limits.maxBody

/-- Behind metadata that announces a body within the limits, the message is read whole or not at all. -/
theorem answers_body (fills : Fills ready causes) {s s' : Source σ} {metadata : Bytes} {n : Nat}
    (announces : Message.Announces s.ahead metadata n s'.ahead) (fits : metadata.length ≤ limits.maxMetadata)
    (admitted : n ≤ limits.maxBody) (holds : limits.Holds n) (h : ready s'.device) :
    Answers (fun cause => causes cause ∨ cause.Corrupt) (fun body => Finds limits s (some ⟨metadata, body⟩))
      (s'.readSection limits .body n).1 := by
  refine (answers_readSection fills .body holds h).1.mono fun body ran _ => ?_
  obtain ⟨pad, next, rfl, padLength⟩ := readSection_ok (Prod.ext ran rfl)
  exact ⟨_, Message.Stands.iff_announces.2 ⟨pad, padLength, next ▸ announces⟩, fits, admitted⟩

/-- Whatever the source, reading a message finds one that stands there within the limits, or the end of the stream,
or it fails for a cause in the device or in the stream; only at an overlong body does it overflow. -/
theorem readMessage_cases (fills : Fills ready causes) (unlimited : limits.block = none) {s : Source σ}
    (h : ready s.device) :
    Answers (fun cause => causes cause ∨ cause.Corrupt) (Finds limits s) (s.readMessage limits).1 ∨
      ((s.readMessage limits).1 = misuse .overflow ∧ limits.Overlong s.ahead) := by
  have marked := fills.answers s markerLength h
  have ready₁ := fills.keeps s markerLength h
  unfold readMessage
  split <;> rename_i s₁ ran <;> rw [ran] at marked ready₁
  · exact .inl (marked.widen fun _ => .inl).error
  rename_i marker
  obtain ⟨next, eight⟩ := fill_ok ran
  rcases (limits.answers_metadataLength marker).cases with ⟨none | length, declared, -⟩ | ⟨cause, refused, corrupt⟩
  · rw [declared]
    refine .inl ?_
    rcases Limits.metadataLength_none eight declared with nothing | ended
    · exact .inl (by rw [ran, Array.toList_eq_nil_iff.1 nothing])
    · exact .inr ⟨s₁.ahead, by rw [next, ended]⟩
  · obtain ⟨spelling, spelled, four, rfl, fits⟩ := Limits.metadataLength_ok eight declared
    have holds : limits.Holds (Bytes.toNat spelling) := Limits.holds_of_le unlimited (Bytes.toNat_room four)
    obtain ⟨read, ready₂⟩ := answers_readSection fills .metadata holds ready₁
    rw [declared]
    simp only
    split <;> rename_i s₂ ran₂ <;> rw [ran₂] at read ready₂
    · exact .inl read.error
    rename_i metadata
    obtain ⟨pad, next₂, size₂, padLength⟩ := readSection_ok ran₂
    rcases (limits.answers_bodyLength metadata.toList).cases with ⟨n, known, -⟩ | ⟨cause, refused, corrupt⟩
    · obtain ⟨admitted, kind, left, prelude⟩ := Limits.bodyLength_ok known
      have size : metadata.toList.length = Bytes.toNat spelling := size₂
      have announces : Message.Announces s.ahead metadata.toList n s₂.ahead :=
        .of_parts (spelled ▸ next) next₂ four size.symm (padLength.trans (congrArg padding size.symm)) prelude
      rw [← size] at fits
      rw [known]
      simp only
      by_cases long : wordSize < n + alignment
      · rw [readSection, limits.room_of_overlong long]
        exact .inr ⟨rfl, _, n, _, announces, fits, admitted, long⟩
      · have read :=
          answers_body fills announces fits admitted (Limits.holds_of_le unlimited (Nat.not_lt.1 long)) ready₂
        split <;> rename_i ran₃ <;> rw [ran₃] at read
        · exact .inl read.error
        · exact .inl read
    · rw [refused]
      exact .inl (.inr corrupt)
  · rw [refused]
    exact .inl (.inr corrupt)

end

/-! ## A source that delivers its bytes and ends -/

theorem follows_readMessage (limits : Limits) (s : Source σ) :
    Follows (s.readMessage limits).2 s := by
  unfold readMessage
  have first := follows_fill s markerLength
  split <;> rename_i s₁ ran <;> rw [ran] at first
  · exact first
  split
  · exact first
  · exact first
  rename_i length _
  have second := follows_readSection limits .metadata length s₁
  split <;> rename_i s₂ ran₂ <;> rw [ran₂] at second
  · exact second.trans first
  split
  · exact second.trans first
  rename_i n _
  have third := follows_readSection limits .body n s₂
  split <;> rename_i ran₃ <;> rw [ran₃] at third <;> exact third.trans (second.trans first)

/-- The answer, and where the source is left, are what the reading says. -/
def Agrees (s : Source σ) (out : Result (Option Message) × Source σ) : Reading → Prop
  | .ended n => out.1 = .ok none ∧ out.2.ahead = s.ahead.drop n ∧ out.2.taken = s.taken + n
  | .found m n => out.1 = .ok (some m) ∧ out.2.ahead = s.ahead.drop n ∧ out.2.taken = s.taken + n
  | .corrupt => ∃ problem, out.1 = fail (.corruptStream problem)

section

variable {ready : σ → Prop} (obliging : Device.Obliging ready) (ending : Device.Ending ready) {limits : Limits}
include obliging ending

theorem agrees_of_ended {s : Source σ} (h : ready s.device) {n : Nat} (reads : limits.reading s.ahead = .ended n) :
    s.Agrees (s.readMessage limits) (.ended n) := by
  rcases Limits.ended_of_reading reads with ⟨rfl, nothing⟩ | ⟨rfl, rest, next⟩
  · obtain ⟨s', -, ran, nothing'⟩ := readMessage_nothing obliging ending limits h nothing
    have follows := follows_readMessage limits s
    rw [ran] at follows ⊢
    have balance := follows.remaining
    rw [← length_ahead, ← length_ahead, nothing, nothing'] at balance
    exact ⟨rfl, by rw [nothing', nothing]; rfl, balance⟩
  · obtain ⟨s', -, ran, ahead, taken⟩ := readMessage_end obliging limits h next
    rw [ran]
    exact ⟨rfl, by rw [ahead, next]; rfl, taken⟩

theorem ahead_of_fill_nothing {s : Source σ} (h : ready s.device) {count : Nat} (some : 0 < count)
    (nothing : (s.fill count).1 = .ok #[]) : s.ahead = [] := by
  obtain ⟨s', -, filled⟩ := fill_delivering obliging ending h count
  rw [filled] at nothing
  have none := congrArg Array.toList (Except.ok.inj nothing)
  exact (List.take_eq_nil_iff.1 none).resolve_left some.ne'

/-- Where something is found, or the end, the bytes read as more than a corrupt stream. -/
theorem reading_of_finds {s : Source σ} (h : ready s.device) {found : Option Message}
    (finds : Finds limits s found) : limits.reading s.ahead ≠ .corrupt := by
  intro reads
  cases found with
  | none =>
    rcases finds with nothing | ⟨rest, next⟩
    · rw [ahead_of_fill_nothing obliging ending h (by decide) nothing, Limits.reading_nil] at reads
      cases reads
    · rw [next, Limits.reading_endMarker] at reads
      cases reads
  | some m =>
    obtain ⟨rest, stands, metadata, body⟩ := finds
    rw [Limits.reading_of_stands stands metadata body] at reads
    cases reads

variable (unlimited : limits.block = none)
include unlimited

/-- Unless an overlong body is announced, the answer is the reading of the bytes that are there. -/
theorem agrees_of_not_overlong {s : Source σ} (h : ready s.device) (short : ¬ limits.Overlong s.ahead) :
    s.Agrees (s.readMessage limits) (limits.reading s.ahead) := by
  cases reads : limits.reading s.ahead with
  | ended n => exact agrees_of_ended obliging ending h reads
  | found m n =>
    obtain ⟨rfl, stands, metadata, body⟩ := Limits.found_of_reading reads
    obtain ⟨pad, -, announces⟩ := Message.Stands.iff_announces.1 stands
    have bodyRoom : m.body.size + alignment ≤ wordSize :=
      Nat.not_lt.1 fun long => short ⟨_, _, _, announces, metadata, body, long⟩
    obtain ⟨s', -, ran, ahead, taken⟩ := readMessage_of_stands obliging h stands ⟨metadata, body,
      Limits.holds_of_le unlimited announces.metadata_room, Limits.holds_of_le unlimited bodyRoom⟩
    rw [ran]
    exact ⟨rfl, ahead, taken⟩
  | corrupt =>
    rcases readMessage_cases (fills_ending obliging ending) unlimited h with answers | ⟨-, overlong⟩
    · rcases answers.cases with ⟨found, -, finds⟩ | ⟨cause, ran, impossible | ⟨problem, rfl⟩⟩
      · exact absurd reads (reading_of_finds obliging ending h finds)
      · exact impossible.elim
      · exact ⟨problem, ran⟩
    · exact absurd overlong short

/-- The answer is the reading of the bytes that are there, however the source delivers them. The body of a message
that is found has the length that its decoded metadata gives. -/
theorem readMessage_agrees (bounded : limits.maxBody + alignment ≤ wordSize) {s : Source σ} (h : ready s.device) :
    s.Agrees (s.readMessage limits) (limits.reading s.ahead) ∧
      ∀ m, (s.readMessage limits).1 = .ok (some m) →
        ∀ decoded, Metadata.decode m.metadata = .ok decoded → decoded.bodyLength = m.body.size := by
  refine ⟨agrees_of_not_overlong obliging ending unlimited h (Limits.not_overlong bounded _), fun m ran decoded => ?_⟩
  exact (stands_of_readMessage (Prod.ext ran rfl)).bodyLength_eq

end

/-! ### A message with loose padding -/

/-- Three bytes of metadata that announce nine bytes, each section padded with what is not zero, and a further byte. -/
def loose : Bytes :=
  continuation ++ [3, 0, 0, 0] ++ [metadataVersion, 2, 9] ++ List.replicate 5 0xA0 ++ List.replicate 9 0xB0 ++
    List.replicate 7 0xC0 ++ [0xD0]

theorem readMessage_agrees_loose :
    ∃ s', (⟨⟨true⟩, loose.toArray, 0⟩ : Source Hesitant).readMessage .widest =
        (.ok (some ⟨[metadataVersion, 2, 9], Array.replicate 9 0xB0⟩), s') ∧
      s'.ahead = [0xD0] ∧ s'.taken = 32 := by
  have ahead : (⟨⟨true⟩, loose.toArray, 0⟩ : Source Hesitant).ahead = loose := ahead_unread _ _
  have agrees : Agrees (⟨⟨true⟩, loose.toArray, 0⟩ : Source Hesitant) (readMessage .widest _)
      (Limits.widest.reading _) :=
    (readMessage_agrees Hesitant.obliging Hesitant.ending rfl (by decide) trivial).1
  have reads : Limits.widest.reading loose = .found ⟨[metadataVersion, 2, 9], Array.replicate 9 0xB0⟩ 32 := by decide
  rw [ahead, reads] at agrees
  obtain ⟨answer, behind, taken⟩ := agrees
  exact ⟨_, Prod.ext answer rfl, by rw [behind, ahead]; rfl, taken⟩

end Source

end ColumnStream
