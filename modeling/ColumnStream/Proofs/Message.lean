/-
Messages among the bytes of a stream. `Message.bytes` is what a message is written as, and `Stands` says
that some bytes begin with a message, whatever its padding holds. A reader finds a message just where one
stands, and only that one; where the data ends inside a message, it finds that out.
-/
import ColumnStream.Message
import ColumnStream.Proofs.Metadata.RoundTrip
import ColumnStream.Proofs.Transport.Source

namespace ColumnStream

/-! ## Messages as bytes -/

namespace Message

/-- The bytes, zero filled up to the alignment. -/
def filled (x : Bytes) : Bytes := x ++ Bytes.zeros (padding x.length)

@[simp] theorem length_filled (x : Bytes) : (filled x).length = padded x.length := by
  simp [filled, Bytes.zeros, padded]

theorem padding_padded (n : Nat) : padding (padded n) = 0 := by
  unfold padded padding alignment
  omega

theorem padded_padded (n : Nat) : padded (padded n) = padded n := by
  have := padding_padded n
  unfold padded at *
  omega

/-- The marker, the padded length of the metadata, and the two sections. -/
def bytes (m : Message) : Bytes :=
  continuation ++ Bytes.ofNat 4 (padded m.metadata.length) ++ filled m.metadata ++ filled m.body.toList

theorem length_bytes (m : Message) : m.bytes.length = m.size := by
  simp only [bytes, size, continuation, markerLength, List.length_append, length_filled, Bytes.length_ofNat,
    Array.length_toList, List.length_cons, List.length_nil]

/-- The length of the metadata can be stored. -/
def Short (m : Message) : Prop := padded m.metadata.length < Bytes.card 4

theorem parts_eq {m : Message} (short : m.Short) :
    ∃ parts, m.parts = .ok parts ∧ parts.flatMap Array.toList = m.bytes := by
  have made : marker m.metadata.length = .ok _ := if_pos short
  refine ⟨_, by rw [parts, made]; rfl, ?_⟩
  simp [bytes, filled, List.append_assoc]

theorem parts_of_long {m : Message} (long : ¬ m.Short) : m.parts = fail .outOfBounds := by
  have refused : marker m.metadata.length = fail .outOfBounds := if_neg long
  rw [parts, refused]
  rfl

/-- The metadata says how long the body is, however it is padded. -/
def Declares (m : Message) : Prop :=
  ∀ rest, ∃ kind left, Metadata.parsePrelude (m.metadata ++ rest) = .ok ((kind, m.body.size), left)

/-! ## Messages in a stream -/

/-- The bytes begin with metadata that announces a body of `n` bytes, and then comes `rest`. -/
inductive Announces : Bytes → Bytes → Nat → Bytes → Prop
  | intro {metadata length pad rest left : Bytes} {n : Nat} {kind : MessageKind} : length.length = 4 →
      Bytes.toNat length = metadata.length → pad.length = padding metadata.length →
      Metadata.parsePrelude metadata = .ok ((kind, n), left) →
      Announces (continuation ++ length ++ (metadata ++ pad) ++ rest) metadata n rest

namespace Announces

variable {x metadata metadata' rest rest' : Bytes} {n n' : Nat}

theorem of_parts {y spelling pad left : Bytes} {kind : MessageKind} (head : x = continuation ++ spelling ++ y)
    (tail : y = metadata ++ pad ++ rest) (four : spelling.length = 4)
    (value : Bytes.toNat spelling = metadata.length) (padLength : pad.length = padding metadata.length)
    (prelude : Metadata.parsePrelude metadata = .ok ((kind, n), left)) : Announces x metadata n rest := by
  rw [head, tail, ← List.append_assoc]
  exact .intro four value padLength prelude

theorem length_eq (h : Announces x metadata n rest) :
    x.length = markerLength + padded metadata.length + rest.length := by
  obtain ⟨length, -, pad, -⟩ := h
  simp only [List.length_append, length, pad, padded, markerLength, continuation, List.length_cons, List.length_nil]

/-- Only one body is announced at a place. -/
theorem unique (h : Announces x metadata n rest) (h' : Announces x metadata' n' rest') :
    metadata = metadata' ∧ n = n' ∧ rest = rest' := by
  cases h with
  | @intro _ length pad _ left _ kind four value padLength prelude =>
    generalize same : continuation ++ length ++ (metadata ++ pad) ++ rest = y at h'
    cases h' with
    | @intro _ length' pad' _ left' _ kind' four' value' padLength' prelude' =>
      simp only [List.append_assoc, List.append_cancel_left_eq] at same
      obtain ⟨rfl, same₁⟩ := List.append_inj same (by rw [four, four'])
      obtain ⟨rfl, same₂⟩ := List.append_inj same₁ (by rw [← value, value'])
      obtain ⟨-, rest_eq⟩ := List.append_inj same₂ (by rw [padLength, padLength'])
      exact ⟨rfl, congrArg (·.1.2) (Except.ok.inj (prelude.symm.trans prelude')), rest_eq⟩

/-- No prelude can be read from metadata without bytes. -/
theorem metadata_ne_nil (h : Announces x metadata n rest) : metadata ≠ [] := by
  obtain ⟨-, -, -, prelude⟩ := h
  rintro rfl
  cases prelude

/-- The marker alone takes up bytes. -/
theorem not_nil : ¬ Announces [] metadata n rest := by
  intro h
  have := h.length_eq
  simp only [List.length_nil, markerLength] at this
  omega

theorem not_endMarker {further : Bytes} : ¬ Announces (endMarker ++ further) metadata n rest := by
  intro h
  have some := h.metadata_ne_nil
  generalize same : endMarker ++ further = y at h
  cases h with
  | @intro _ length pad _ left _ kind four value =>
    simp only [endMarker, List.append_assoc, List.append_cancel_left_eq] at same
    obtain ⟨zero, -⟩ := List.append_inj same (by rw [four]; rfl)
    rw [← zero] at value
    exact some (List.length_eq_zero_iff.1 value.symm)

end Announces

/-- The bytes begin with the message, and then comes `rest`. -/
inductive Stands : Bytes → Message → Bytes → Prop
  | intro {m : Message} {rest length pad pad' left : Bytes} {kind : MessageKind} : length.length = 4 →
      Bytes.toNat length = m.metadata.length → pad.length = padding m.metadata.length →
      pad'.length = padding m.body.size → Metadata.parsePrelude m.metadata = .ok ((kind, m.body.size), left) →
      Stands (continuation ++ length ++ (m.metadata ++ pad) ++ (m.body.toList ++ pad') ++ rest) m rest

namespace Stands

variable {x rest rest' : Bytes} {m m' : Message}

theorem length_eq (h : Stands x m rest) : x.length = m.size + rest.length := by
  obtain ⟨length, -, pad, pad', -⟩ := h
  simp only [List.length_append, length, pad, pad', Array.length_toList, size, padded, markerLength, continuation]
  simp only [List.length_cons, List.length_nil]

/-- The metadata of a message announces its body, which follows with its padding. -/
theorem iff_announces : Stands x m rest ↔
    ∃ pad, pad.length = padding m.body.size ∧ Announces x m.metadata m.body.size (m.body.toList ++ pad ++ rest) := by
  constructor
  · rintro ⟨length, value, pad, pad', prelude⟩
    exact ⟨_, pad', by simpa only [List.append_assoc] using Announces.intro length value pad prelude⟩
  · rintro ⟨pad', padLength', announces⟩
    obtain ⟨metadata, body⟩ := m
    generalize follow : body.toList ++ pad' ++ rest = y at announces
    cases announces with
    | intro length value pad prelude =>
      rw [← follow, ← List.append_assoc]
      exact .intro length value pad padLength' prelude

/-- There is only one message at a place. -/
theorem unique (h : Stands x m rest) (h' : Stands x m' rest') : m = m' ∧ rest = rest' := by
  obtain ⟨pad, padLength, announces⟩ := iff_announces.1 h
  obtain ⟨pad', padLength', announces'⟩ := iff_announces.1 h'
  obtain ⟨metadata, sizes, follow⟩ := announces.unique announces'
  simp only [List.append_assoc] at follow
  obtain ⟨bodies, follow'⟩ := List.append_inj follow (by simpa using sizes)
  obtain ⟨-, rest_eq⟩ := List.append_inj follow' (by rw [padLength, padLength', sizes])
  obtain ⟨_, body⟩ := m
  obtain rfl : _ = m'.metadata := metadata
  obtain rfl : body = m'.body := Array.toList_inj.1 bodies
  exact ⟨rfl, rest_eq⟩

theorem not_nil : ¬ Stands [] m rest := by
  intro h
  obtain ⟨pad, -, announces⟩ := iff_announces.1 h
  exact announces.not_nil

theorem metadata_ne_nil (h : Stands x m rest) : m.metadata ≠ [] := by
  obtain ⟨pad, -, announces⟩ := iff_announces.1 h
  exact announces.metadata_ne_nil

theorem not_endMarker (further : Bytes) : ¬ Stands (endMarker ++ further) m rest := by
  intro h
  obtain ⟨pad, -, announces⟩ := iff_announces.1 h
  exact announces.not_endMarker

end Stands

/-- The bytes of a message up to the padding of its metadata. -/
def head (m : Message) : Bytes := continuation ++ Bytes.ofNat 4 (padded m.metadata.length) ++ m.metadata

theorem bytes_eq_head (m : Message) :
    m.bytes = m.head ++ (Bytes.zeros (padding m.metadata.length) ++ filled m.body.toList) := by
  simp only [bytes, head, filled, List.append_assoc]

/-- Once the metadata of a message is there, whatever follows is taken for its padding and its body. -/
theorem stands_head_iff {m m' : Message} (short : m.Short) (declares : m.Declares) {y rest : Bytes} :
    Stands (m.head ++ y) m' rest ↔ ∃ pad body pad', y = pad ++ (Array.toList body ++ pad') ++ rest ∧
      pad.length = padding m.metadata.length ∧ body.size = m.body.size ∧ pad'.length = padding m.body.size ∧
      m' = ⟨m.metadata ++ pad, body⟩ := by
  obtain ⟨metadata, body⟩ := m
  constructor
  · intro h
    obtain ⟨metadata', body'⟩ := m'
    generalize same : head ⟨metadata, body⟩ ++ y = x at h
    cases h with
    | @intro _ _ length pad tail left kind four value padLength tailLength prelude =>
      simp only [head, List.append_assoc, List.append_cancel_left_eq] at same value padLength tailLength prelude
      obtain ⟨rfl, after⟩ := List.append_inj same (by rw [four, Bytes.length_ofNat])
      rw [Bytes.toNat_ofNat, Nat.mod_eq_of_lt short] at value
      simp only at value
      -- The length in the marker is a padded one, so that the padding counts as metadata for the reader.
      have none : pad = [] := by rw [← List.length_eq_zero_iff, padLength, ← value, padding_padded]
      rw [none, List.nil_append] at after
      have longer : metadata.length ≤ metadata'.length := value ▸ le_padded _
      obtain ⟨filling, rfl⟩ := List.prefix_of_prefix_length_le (List.prefix_append metadata y)
        (after ▸ List.prefix_append metadata' _) longer
      rw [List.append_assoc, List.append_cancel_left_eq] at after
      -- The prelude comes first in the metadata, so what fills it up cannot change the length of the body.
      obtain ⟨kind', left', prelude'⟩ := declares filling
      have sizes : body'.size = body.size := congrArg (·.1.2) (Except.ok.inj (prelude.symm.trans prelude'))
      refine ⟨filling, body', tail, ?_, ?_, sizes, by rw [tailLength, sizes], rfl⟩
      · rw [after]
        simp only [List.append_assoc]
      · simp only [List.length_append, padded] at value ⊢
        omega
  · rintro ⟨pad, body', pad', rfl, padLength, sizes, padLength', rfl⟩
    obtain ⟨kind, left, prelude⟩ := declares pad
    have whole : (metadata ++ pad).length = padded metadata.length := by
      rw [List.length_append, padLength, padded]
    have stands := @Stands.intro ⟨metadata ++ pad, body'⟩ rest (Bytes.ofNat 4 (padded metadata.length)) [] pad' left
      kind (Bytes.length_ofNat _ _) (by rw [Bytes.toNat_ofNat, Nat.mod_eq_of_lt short, whole])
      (by rw [whole, padding_padded]; rfl) (by rw [padLength', sizes]) (by rw [prelude, sizes])
    simpa only [head, List.append_assoc, List.append_nil] using stands

/-- What was written stands there, with its metadata padded. -/
theorem stands_bytes {m : Message} (short : m.Short) (declares : m.Declares) (rest : Bytes) :
    Stands (m.bytes ++ rest) ⟨filled m.metadata, m.body⟩ rest := by
  rw [bytes_eq_head, List.append_assoc]
  exact (stands_head_iff short declares).2 ⟨Bytes.zeros (padding m.metadata.length), m.body,
    Bytes.zeros (padding m.body.size), by simp [filled, List.append_assoc], by simp [Bytes.zeros], rfl,
    by simp [Bytes.zeros], rfl⟩

/-- The marker of a message. -/
def opening (m : Message) : Bytes := continuation ++ Bytes.ofNat 4 (padded m.metadata.length)

/-- Where the bytes of a message can end too early. -/
inductive Torn (m : Message) : Bytes → Prop
  | marker {x : Bytes} : x.length < markerLength → Torn m x
  | metadata {y : Bytes} : y.length < padded m.metadata.length → Torn m (m.opening ++ y)
  | body {z : Bytes} : z.length < padded m.body.size → Torn m (m.opening ++ (filled m.metadata ++ z))

theorem length_opening (m : Message) : m.opening.length = markerLength := by
  simp [opening, continuation, markerLength]

/-- A message that was written announces its body by its padded metadata. -/
theorem announces_opening {m : Message} (short : m.Short) (declares : m.Declares) (z : Bytes) :
    Announces (m.opening ++ (filled m.metadata ++ z)) (filled m.metadata) m.body.size z := by
  obtain ⟨kind, left, prelude⟩ := declares (Bytes.zeros (padding m.metadata.length))
  have value : Bytes.toNat (Bytes.ofNat 4 (padded m.metadata.length)) = (filled m.metadata).length := by
    rw [Bytes.toNat_ofNat, Nat.mod_eq_of_lt short, length_filled]
  have none : ([] : Bytes).length = padding (filled m.metadata).length := by
    rw [length_filled, padding_padded]
    rfl
  exact .of_parts rfl (by rw [List.append_nil]) (Bytes.length_ofNat _ _) value none prelude

theorem torn_of_prefix {m : Message} {x : Bytes} (first : x <+: m.bytes) (fewer : x.length < m.bytes.length) :
    m.Torn x := by
  have marker := m.length_opening
  have parts : m.bytes = m.opening ++ (filled m.metadata ++ filled m.body.toList) := by
    simp only [bytes, opening, List.append_assoc]
  by_cases inMarker : x.length < markerLength
  · exact .marker inMarker
  · obtain ⟨y, rfl⟩ := List.prefix_of_prefix_length_le (parts ▸ List.prefix_append _ _) first (by omega)
    rw [parts, List.prefix_append_right_inj] at first
    rw [length_bytes, size, List.length_append] at fewer
    by_cases inMetadata : y.length < padded m.metadata.length
    · exact .metadata inMetadata
    · obtain ⟨z, rfl⟩ := List.prefix_of_prefix_length_le (List.prefix_append _ _) first
        (by rw [length_filled]; omega)
      rw [List.length_append, length_filled] at fewer
      exact .body (by omega)

end Message

/-! ## Writing -/

namespace Sink

variable {σ : Type} [Device σ]

theorem writeMessage_puts {m : Message} (short : m.Short) (s : Sink σ) : Puts s m.bytes (s.writeMessage m) := by
  obtain ⟨parts, made, flat⟩ := Message.parts_eq short
  have put := s.writeParts_puts parts
  rw [flat] at put
  rw [writeMessage, made]
  simp only
  split
  · rename_i call
    rw [call] at put
    have := put.torn_append (β := Nat) []
    rwa [List.append_nil] at this
  · rename_i call
    rw [call] at put
    exact .all _ put.content_eq

theorem writeMessage_of_long {m : Message} (long : ¬ m.Short) (s : Sink σ) :
    s.writeMessage m = (fail .outOfBounds, s) := by
  rw [writeMessage, Message.parts_of_long long]
  rfl

theorem writeMessage_obliging {ready : σ → Prop} (obliging : Device.Obliging ready) {m : Message} (short : m.Short)
    (s : Sink σ) (h : ready s.device) : ∃ s', ready s'.device ∧ s.writeMessage m = (.ok m.size, s') := by
  obtain ⟨parts, made, -⟩ := Message.parts_eq short
  obtain ⟨s', ready', ran⟩ := writeParts_obliging obliging s parts h
  exact ⟨s', ready', by rw [writeMessage, made]; simp only; rw [ran]⟩

theorem writeEnd_puts (s : Sink σ) : Puts s endMarker s.writeEnd := by
  have put := s.writeAll_puts endMarker.toArray
  rw [writeEnd]
  split
  · rename_i call
    rw [call] at put
    have := put.torn_append (β := Nat) []
    rwa [List.append_nil] at this
  · rename_i call
    rw [call] at put
    exact .all _ put.content_eq

theorem writeEnd_obliging {ready : σ → Prop} (obliging : Device.Obliging ready) (s : Sink σ) (h : ready s.device) :
    ∃ s', ready s'.device ∧ s.writeEnd = (.ok endMarker.length, s') := by
  obtain ⟨s', ready', ran⟩ := writeFrom_obliging obliging s endMarker.toArray 0 h
  exact ⟨s', ready', by rw [writeEnd, writeAll, ran]⟩

end Sink

/-! ## Reading -/

namespace Limits

/-- A section of that length can be read with its padding. -/
def Holds (limits : Limits) (length : Nat) : Prop :=
  padded length < wordSize ∧ ∀ most, limits.block = some most → padded length ≤ most

/-- Sections of these lengths are within the limits. -/
structure Admits (limits : Limits) (metadataLength bodyLength : Nat) : Prop where
  metadata : metadataLength ≤ limits.maxMetadata
  body : bodyLength ≤ limits.maxBody
  holdsMetadata : limits.Holds metadataLength
  holdsBody : limits.Holds bodyLength

theorem holds_default {length : Nat} (h : length ≤ 1024 * 1024 * 1024) : Holds {} length := by
  have below : padded length ≤ largestBlock := by
    simp only [padded, padding, alignment, largestBlock]
    omega
  refine ⟨?_, fun most block => Option.some.inj block ▸ below⟩
  simp only [padded, padding, alignment, wordSize]
  omega

theorem admits_default {metadata body : Nat} (hm : metadata ≤ 16 * 1024 * 1024) (hb : body ≤ 1024 * 1024 * 1024) :
    Admits {} metadata body :=
  ⟨hm, hb, holds_default (le_trans hm (by decide)), holds_default hb⟩

theorem room_eq_ok {limits : Limits} {length : Nat} (h : limits.Holds length) :
    limits.room length = .ok (padded length) := by
  rw [room, Word.add_eq_ok h.1, ok_bind]
  cases block : limits.block with
  | none => rfl
  | some most => exact if_pos (h.2 most block)

theorem room_ok {limits : Limits} {length size : Nat} (h : limits.room length = .ok size) : size = padded length := by
  obtain ⟨sum, hsum, h⟩ := bind_eq_ok.1 h
  have same : sum = padded length := (Word.add_ok hsum).1
  split at h
  · split at h
    · cases h
      exact same
    · cases h
  · cases h
    exact same

theorem ofMarker_ok {limits : Limits} {marker : Bytes} {n : Option Nat} (eight : marker.length = markerLength)
    (h : limits.ofMarker marker = .ok n) :
    ∃ length, marker = continuation ++ length ∧ length.length = 4 ∧ ((n = none ∧ Bytes.toNat length = 0) ∨
      (n = some (Bytes.toNat length) ∧ Bytes.toNat length ≤ limits.maxMetadata)) := by
  unfold ofMarker at h
  split at h
  · cases h
  · rename_i begins
    refine ⟨marker.drop 4, by rw [← of_not_not begins, List.take_append_drop], by rw [List.length_drop, eight]; rfl, ?_⟩
    simp only at h
    split at h
    · rename_i zero
      cases h
      exact .inl ⟨rfl, zero⟩
    · split at h <;> cases h
      exact .inr ⟨rfl, by omega⟩

/-- A length is only found behind a whole marker. -/
theorem metadataLength_ok {limits : Limits} {found : Buffer} {n : Nat} (eight : found.size ≤ markerLength)
    (h : limits.metadataLength found = .ok (some n)) :
    ∃ length, found.toList = continuation ++ length ∧ length.length = 4 ∧ Bytes.toNat length = n ∧
      n ≤ limits.maxMetadata := by
  unfold metadataLength at h
  split at h
  · cases h
  · split at h
    · cases h
    · obtain ⟨length, spelled, four, ⟨none, -⟩ | ⟨some, fits⟩⟩ := ofMarker_ok (by rw [Array.length_toList]; omega) h
      · cases none
      · cases some
        exact ⟨length, spelled, four, rfl, fits⟩

/-- The end of a stream is only found in the end marker, or in nothing. -/
theorem metadataLength_none {limits : Limits} {found : Buffer} (eight : found.size ≤ markerLength)
    (h : limits.metadataLength found = .ok none) : found.toList = [] ∨ found.toList = endMarker := by
  unfold metadataLength at h
  split at h
  · rename_i nothing
    exact .inl (by simpa using nothing)
  · split at h
    · cases h
    · obtain ⟨length, spelled, four, ⟨-, zero⟩ | ⟨some, -⟩⟩ := ofMarker_ok (by rw [Array.length_toList]; omega) h
      · have zeros := Bytes.ofNat_toNat length
        rw [four, zero] at zeros
        exact .inr (by rw [spelled, ← zeros]; rfl)
      · cases some

theorem metadataLength_eq_ok {limits : Limits} {length : Bytes} (four : length.length = 4)
    (some : Bytes.toNat length ≠ 0) (fits : Bytes.toNat length ≤ limits.maxMetadata) :
    limits.metadataLength (continuation ++ length).toArray = .ok (.some (Bytes.toNat length)) := by
  have size : (continuation ++ length).toArray.size = markerLength := by simp [four, continuation, markerLength]
  rw [metadataLength, if_neg (by simp [continuation]), if_neg (by rw [size]; simp), ofMarker]
  have take : (continuation ++ length).take 4 = continuation := by simp [continuation]
  have drop : (continuation ++ length).drop 4 = length := by simp [continuation]
  simp only [take, drop]
  rw [if_neg (by simp), if_neg some, if_neg (Nat.not_lt.2 fits)]

theorem metadataLength_end (limits : Limits) : limits.metadataLength endMarker.toArray = .ok none := by
  rw [metadataLength, if_neg (by decide), if_neg (by decide), ofMarker, if_neg (by decide)]
  exact if_pos (by decide)

theorem bodyLength_ok {limits : Limits} {metadata : Bytes} {n : Nat} (h : limits.bodyLength metadata = .ok n) :
    n ≤ limits.maxBody ∧ ∃ kind left, Metadata.parsePrelude metadata = .ok ((kind, n), left) := by
  obtain ⟨⟨⟨kind, length⟩, left⟩, read, h⟩ := bind_eq_ok.1 h
  simp only at h
  split at h <;> cases h
  exact ⟨by omega, kind, left, Metadata.run_eq_ok.1 read⟩

theorem bodyLength_eq_ok {limits : Limits} {metadata left : Bytes} {kind : MessageKind} {n : Nat}
    (h : Metadata.parsePrelude metadata = .ok ((kind, n), left)) (fits : n ≤ limits.maxBody) :
    limits.bodyLength metadata = .ok n := by
  rw [bodyLength, Parser.run, h, ok_bind]
  exact if_neg (Nat.not_lt.2 fits)

end Limits

namespace Source

variable {σ : Type} [Device σ]

theorem readSection_ok {limits : Limits} {part : Section} {length : Nat} {s s' : Source σ}
    {found : Buffer} (h : s.readSection limits part length = (.ok found, s')) :
    ∃ pad, s.ahead = found.toList ++ pad ++ s'.ahead ∧ found.size = length ∧ pad.length = padding length := by
  unfold readSection at h
  split at h
  · cases h
  · rename_i size room
    obtain rfl := Limits.room_ok room
    split at h
    · cases h
    · rename_i whole s₁ call
      obtain ⟨next, le⟩ := fill_ok call
      rcases Nat.lt_or_ge whole.size (padded length) with short | full
      · rw [part.finish_of_lt short] at h
        cases h
      · rw [part.finish_of_le full] at h
        cases h
        have size : whole.size = length + padding length := by
          unfold padded at *
          omega
        refine ⟨whole.toList.drop length, ?_, by rw [Array.size_extract]; omega, by simp [size]⟩
        rw [next]
        congr 1
        simp [List.extract_eq_take_drop]

theorem readSection_eq_ok {ready : σ → Prop} (obliging : Device.Obliging ready) {limits : Limits} (part : Section)
    {s : Source σ} (h : ready s.device) {x : Buffer} {pad rest : Bytes} (next : s.ahead = x.toList ++ pad ++ rest)
    (length : pad.length = padding x.size) (holds : limits.Holds x.size) :
    ∃ s', ready s'.device ∧ s.readSection limits part x.size = (.ok x, s') ∧ s'.ahead = rest ∧
      s'.taken = s.taken + padded x.size := by
  obtain ⟨s', ready', filled, ahead, taken⟩ := fill_obliging obliging h next
  have size : (x.toList ++ pad).length = padded x.size := by simp [length, padded]
  rw [size] at filled taken
  refine ⟨s', ready', ?_, ahead, taken⟩
  rw [readSection, Limits.room_eq_ok holds]
  simp only
  rw [filled]
  simp only
  rw [part.finish_of_le (by simpa using size.ge)]
  have same : (x.toList ++ pad).toArray.extract 0 x.size = x := by
    apply Array.toList_inj.1
    simp [List.extract_eq_take_drop]
  rw [same]

/-- A reader finds no message but the one that stands at its place, and goes on right after it. -/
theorem stands_of_readMessage {limits : Limits} {s s' : Source σ} {m : Message}
    (h : s.readMessage limits = (.ok (some m), s')) : Message.Stands s.ahead m s'.ahead := by
  unfold readMessage at h
  split at h
  · cases h
  · rename_i marker s₁ call
    obtain ⟨next, eight⟩ := fill_ok call
    split at h
    · cases h
    · cases h
    · rename_i n declared
      obtain ⟨length, spelled, four, value, -⟩ := Limits.metadataLength_ok eight declared
      split at h
      · cases h
      · rename_i metadata s₂ call₂
        obtain ⟨pad, next₂, size₂, padLength⟩ := readSection_ok call₂
        split at h
        · cases h
        · rename_i bodyLength known
          obtain ⟨-, kind, left, prelude⟩ := Limits.bodyLength_ok known
          split at h
          · cases h
          · rename_i body s₃ call₃
            obtain ⟨pad', next₃, size₃, padLength'⟩ := readSection_ok call₃
            cases h
            have stands : Message.Stands _ ⟨metadata.toList, body⟩ s'.ahead :=
              .intro four (by rw [value, Array.length_toList, size₂]) (by rw [padLength, Array.length_toList, size₂])
                (by rw [padLength', size₃]) (by rw [prelude, size₃])
            rw [next, next₂, next₃, spelled]
            simpa only [List.append_assoc] using stands

/-- Metadata within the limits is read, and then the body that it announces. -/
theorem readMessage_of_announces {ready : σ → Prop} (obliging : Device.Obliging ready) {limits : Limits} {s : Source σ}
    (h : ready s.device) {metadata rest : Bytes} {n : Nat} (announces : Message.Announces s.ahead metadata n rest)
    (fits : metadata.length ≤ limits.maxMetadata) (holds : limits.Holds metadata.length)
    (admitted : n ≤ limits.maxBody) :
    ∃ s' : Source σ, ready s'.device ∧ s'.ahead = rest ∧
      s'.taken = s.taken + (markerLength + padded metadata.length) ∧
      s.readMessage limits =
        match s'.readSection limits .body n with
        | (.error e, s'') => (.error e, s'')
        | (.ok body, s'') => (.ok (some ⟨metadata, body⟩), s'') := by
  have found := announces.metadata_ne_nil
  generalize next : s.ahead = x at announces
  cases announces with
  | @intro _ length pad _ left _ kind four value padLength prelude =>
    have some : Bytes.toNat length ≠ 0 := by simpa [value] using found
    have marker : (continuation ++ length).length = markerLength := by simp [four, continuation, markerLength]
    rw [List.append_assoc] at next
    obtain ⟨s₁, ready₁, call, next₁, taken₁⟩ := fill_obliging obliging h next
    rw [marker] at call taken₁
    obtain ⟨s₂, ready₂, call₂, next₂, taken₂⟩ := readSection_eq_ok obliging .metadata ready₁
      (x := metadata.toArray) next₁ (by simpa using padLength) (by simpa using holds)
    rw [List.size_toArray] at call₂ taken₂
    refine ⟨s₂, ready₂, next₂, by rw [taken₂, taken₁, Nat.add_assoc], ?_⟩
    rw [readMessage, call]
    simp only
    rw [Limits.metadataLength_eq_ok four some (value ▸ fits), value]
    simp only
    rw [call₂]
    simp only
    have known := Limits.bodyLength_eq_ok prelude admitted
    generalize limits.bodyLength metadata = declared at known ⊢
    subst known
    rfl

/-- A message that stands at the reader's place is found, within the limits. -/
theorem readMessage_of_stands {ready : σ → Prop} (obliging : Device.Obliging ready) {limits : Limits} {s : Source σ}
    (h : ready s.device) {m : Message} {rest : Bytes} (stands : Message.Stands s.ahead m rest)
    (admits : limits.Admits m.metadata.length m.body.size) :
    ∃ s', ready s'.device ∧ s.readMessage limits = (.ok (some m), s') ∧ s'.ahead = rest ∧
      s'.taken = s.taken + m.size := by
  obtain ⟨pad, padLength, announces⟩ := Message.Stands.iff_announces.1 stands
  obtain ⟨s₁, ready₁, next₁, taken₁, call⟩ :=
    readMessage_of_announces obliging h announces admits.metadata admits.holdsMetadata admits.body
  obtain ⟨s₂, ready₂, call₂, next₂, taken₂⟩ := readSection_eq_ok obliging .body ready₁ next₁ padLength admits.holdsBody
  refine ⟨s₂, ready₂, by rw [call, call₂], next₂, ?_⟩
  rw [taken₂, taken₁, Message.size]
  omega

theorem readMessage_end {ready : σ → Prop} (obliging : Device.Obliging ready) (limits : Limits) {s : Source σ}
    (h : ready s.device) {rest : Bytes} (next : s.ahead = endMarker ++ rest) :
    ∃ s', ready s'.device ∧ s.readMessage limits = (.ok none, s') ∧ s'.ahead = rest ∧
      s'.taken = s.taken + endMarker.length := by
  obtain ⟨s', ready', call, ahead, taken⟩ := fill_obliging obliging h next
  refine ⟨s', ready', ?_, ahead, taken⟩
  rw [readMessage, show markerLength = endMarker.length from rfl, call]
  simp only
  rw [Limits.metadataLength_end]

/-! ### The end of the data -/

section

variable {ready : σ → Prop} (obliging : Device.Obliging ready) (ending : Device.Ending ready) {limits : Limits}
include obliging ending

theorem readSection_ending (part : Section) {s : Source σ} (h : ready s.device) {length : Nat}
    (fewer : s.ahead.length < padded length) (holds : limits.Holds length) :
    ∃ s', s.readSection limits part length =
      (fail (.corruptStream (.endsInSection part (padded length) s.ahead.length)), s') := by
  obtain ⟨s', -, filled, -⟩ := fill_ending obliging ending h fewer
  refine ⟨s', ?_⟩
  rw [readSection, Limits.room_eq_ok holds]
  simp only
  rw [filled]
  simp only
  rw [part.finish_of_lt (by simpa using fewer), List.size_toArray]

/-- No bytes at all are the end of a stream. -/
theorem readMessage_nothing (limits : Limits) {s : Source σ} (h : ready s.device) (nothing : s.ahead = []) :
    ∃ s', ready s'.device ∧ s.readMessage limits = (.ok none, s') ∧ s'.ahead = [] := by
  have fewer : s.ahead.length < markerLength := by rw [nothing]; decide
  obtain ⟨s', ready', filled, ahead⟩ := fill_ending obliging ending h fewer
  refine ⟨s', ready', ?_, ahead⟩
  rw [readMessage, filled, nothing]
  rfl

theorem readMessage_in_marker (limits : Limits) {s : Source σ} (h : ready s.device) (some : s.ahead ≠ [])
    (fewer : s.ahead.length < markerLength) :
    ∃ s', s.readMessage limits = (fail (.corruptStream (.endsInMarker s.ahead.length)), s') := by
  obtain ⟨s', -, filled, -⟩ := fill_ending obliging ending h fewer
  refine ⟨s', ?_⟩
  rw [readMessage, filled]
  simp only
  rw [Limits.metadataLength, if_neg (by simpa using some), if_pos (by simpa using fewer)]
  rfl

omit ending in
/-- A marker that is there is read, and says how long the padded metadata is. -/
theorem fill_opening {s : Source σ} (h : ready s.device) {m : Message} (short : m.Short) (known : m.metadata ≠ [])
    (fits : padded m.metadata.length ≤ limits.maxMetadata) {y : Bytes} (next : s.ahead = m.opening ++ y) :
    ∃ s', ready s'.device ∧ s'.ahead = y ∧ s.fill markerLength = (.ok m.opening.toArray, s') ∧
      limits.metadataLength m.opening.toArray = .ok (some (padded m.metadata.length)) := by
  obtain ⟨s', ready', filled, ahead, -⟩ := fill_obliging obliging h next
  rw [Message.length_opening] at filled
  have value : Bytes.toNat (Bytes.ofNat 4 (padded m.metadata.length)) = padded m.metadata.length := by
    rw [Bytes.toNat_ofNat, Nat.mod_eq_of_lt short]
  have some : Bytes.toNat (Bytes.ofNat 4 (padded m.metadata.length)) ≠ 0 := by
    have := List.length_pos_iff.2 known
    have := le_padded m.metadata.length
    omega
  refine ⟨s', ready', ahead, filled, ?_⟩
  rw [Message.opening, Limits.metadataLength_eq_ok (Bytes.length_ofNat _ _) some (value.symm ▸ fits), value]

/-- A body that is announced, but not there with its padding, makes the stream corrupt. -/
theorem readMessage_lacking {s : Source σ} (h : ready s.device) {metadata rest : Bytes} {n : Nat}
    (announces : Message.Announces s.ahead metadata n rest) (admits : limits.Admits metadata.length n)
    (lacking : rest.length < padded n) :
    ∃ s', s.readMessage limits =
      (fail (.corruptStream (.endsInSection .body (padded n) rest.length)), s') := by
  obtain ⟨s₁, ready₁, rfl, -, call⟩ :=
    readMessage_of_announces obliging h announces admits.metadata admits.holdsMetadata admits.body
  obtain ⟨s₂, call₂⟩ := readSection_ending obliging ending .body ready₁ lacking admits.holdsBody
  exact ⟨s₂, by rw [call, call₂]; rfl⟩

/-- Where the data ends inside a message, wherever in it that is, none is found. -/
theorem readMessage_torn {s : Source σ} (h : ready s.device) {m : Message} (short : m.Short) (declares : m.Declares)
    (admits : limits.Admits (padded m.metadata.length) m.body.size) (torn : m.Torn s.ahead) (some : s.ahead ≠ []) :
    ∃ problem s', s.readMessage limits = (fail (.corruptStream problem), s') := by
  have announces := Message.announces_opening short declares
  generalize next : s.ahead = x at torn
  cases torn with
  | marker inMarker =>
    obtain ⟨s', call⟩ := readMessage_in_marker obliging ending limits h some (next ▸ inMarker)
    exact ⟨_, s', call⟩
  | metadata fewer =>
    have known : m.metadata ≠ [] := fun none => (announces []).metadata_ne_nil (by rw [none]; rfl)
    obtain ⟨s₁, ready₁, rfl, call₁, found⟩ := fill_opening obliging h short known admits.metadata next
    rw [← Message.padded_padded] at fewer
    obtain ⟨s₂, call₂⟩ := readSection_ending obliging ending .metadata ready₁ fewer admits.holdsMetadata
    refine ⟨.endsInSection .metadata (padded (padded m.metadata.length)) s₁.ahead.length, s₂, ?_⟩
    rw [readMessage, call₁]
    simp only
    rw [found]
    simp only
    rw [call₂]
    rfl
  | body fewer =>
    obtain ⟨s', call⟩ := readMessage_lacking obliging ending h (next ▸ announces _)
      (by rwa [Message.length_filled]) fewer
    exact ⟨_, s', call⟩

end

end Source

end ColumnStream
