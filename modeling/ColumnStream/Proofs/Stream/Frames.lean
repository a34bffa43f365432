/-
Messages one after another, whatever they carry. The end of a message is not in its frame: it follows from the length
of the body, which the metadata declares in its first bytes. `Frame` has both ways to frame a message, with the padded
length of the metadata, as a writer does it, and with the length as it is; a reader finds its way through any sequence
of both.
-/
import ColumnStream.Proofs.Message
import ColumnStream.Proofs.Metadata.Parsing

namespace ColumnStream

open Message

/-! ## Frames -/

/-- A message in a stream. A loose frame declares the length of the metadata as it is, and pads it and the body with
any bytes. -/
inductive Frame
  | written (m : Message)
  | loose (m : Message) (pad tail : Bytes)

namespace Frame

def message : Frame → Message
  | written m => m
  | loose m _ _ => m

def bytes : Frame → Bytes
  | written m => m.bytes
  | loose m pad tail =>
    continuation ++ Bytes.ofNat 4 m.metadata.length ++ (m.metadata ++ pad) ++ (m.body.toList ++ tail)

/-- What a reader is to find: padding counts as metadata if the declared length says so. -/
def found : Frame → Message
  | written m => ⟨filled m.metadata, m.body⟩
  | loose m _ _ => m

/-- The padding goes up to the alignment. -/
def Padded : Frame → Prop
  | written _ => True
  | loose m pad tail => pad.length = padding m.metadata.length ∧ tail.length = padding m.body.size

/-- The metadata begins with a prelude that declares the length of the body, and lengths are in bounds: the padded one
of the metadata can be stored, and the reader admits those it is to read. -/
structure Fits (limits : Limits) (f : Frame) : Prop where
  prelude : ∃ kind left, Metadata.parsePrelude f.message.metadata = .ok ((kind, f.message.body.size), left)
  short : f.message.Short
  padded : f.Padded
  admits : limits.Admits f.found.metadata.length f.found.body.size

/-- A prelude stays readable when the metadata is padded. -/
theorem declares_of_prelude {m : Message} {kind : MessageKind} {left : Bytes}
    (h : Metadata.parsePrelude m.metadata = .ok ((kind, m.body.size), left)) : m.Declares := fun rest =>
  ⟨kind, left ++ rest, Metadata.orderly_prelude.extend h rest⟩

theorem Fits.stands {limits : Limits} {f : Frame} (h : f.Fits limits) (rest : Bytes) :
    Stands (f.bytes ++ rest) f.found rest := by
  obtain ⟨⟨kind, left, prelude⟩, short, padded, -⟩ := h
  cases f with
  | written m => exact stands_bytes short (declares_of_prelude prelude) rest
  | loose m pad tail =>
    have le := le_padded m.metadata.length
    refine .intro (Bytes.length_ofNat _ _) ?_ padded.1 padded.2 prelude
    rw [Bytes.toNat_ofNat, Nat.mod_eq_of_lt (lt_of_le_of_lt le short)]

/-- Metadata that can be decoded is decoded alike in either frame. -/
theorem decode_found {f : Frame} {decoded : Metadata} (h : Metadata.decode f.message.metadata = .ok decoded) :
    Metadata.decode f.found.metadata = .ok decoded := by
  cases f with
  | written m => exact Metadata.decode_append h _
  | loose m pad tail => exact h

end Frame

/-! ## Writing -/

namespace Sink

variable {σ : Type} [Device σ] {ready : σ → Prop}

/-- One message after another is written, and then the end of the stream. Each call answers with the number of bytes
that it appended, a multiple of the alignment. -/
inductive Writes : Sink σ → List Message → Sink σ → Prop
  | ended {s s' : Sink σ} {n : Nat} : s.writeEnd = (.ok n, s') → s'.content.length = s.content.length + n →
      alignment ∣ n → Writes s [] s'
  | message {s s₁ s' : Sink σ} {m : Message} {ms : List Message} {n : Nat} : s.writeMessage m = (.ok n, s₁) →
      s₁.content.length = s.content.length + n → alignment ∣ n → Writes s₁ ms s' → Writes s (m :: ms) s'

theorem writes_all (obliging : Device.Obliging ready) {ms : List Message} (short : ∀ m ∈ ms, m.Short) {s : Sink σ}
    (h : ready s.device) :
    ∃ s', Writes s ms s' ∧ s'.content = s.content ++ (ms.flatMap Message.bytes ++ endMarker) := by
  induction ms generalizing s with
  | nil =>
    obtain ⟨s', -, ran⟩ := writeEnd_obliging obliging s h
    have put := s.writeEnd_puts
    rw [ran] at put
    exact ⟨s', .ended ran (by rw [put.content_eq, List.length_append]) (by decide), put.content_eq⟩
  | cons m ms ih =>
    obtain ⟨own, others⟩ := List.forall_mem_cons.1 short
    obtain ⟨s₁, ready₁, ran⟩ := writeMessage_obliging obliging own s h
    have put := writeMessage_puts own s
    rw [ran] at put
    obtain ⟨s', writes, content⟩ := ih others ready₁
    have aligned : alignment ∣ m.size :=
      Nat.dvd_add (Nat.dvd_add (by decide) (alignment_dvd_padded _)) (alignment_dvd_padded _)
    refine ⟨s', .message ran (by rw [put.content_eq, List.length_append, length_bytes]) aligned writes, ?_⟩
    rw [content, put.content_eq, List.flatMap_cons]
    simp only [List.append_assoc]

end Sink

/-! ## Reading -/

namespace Source

variable {σ : Type} [Device σ] {ready : σ → Prop}

/-- One message after another is found, and then the end of the stream. -/
inductive Finding (limits : Limits) : Source σ → List Message → Source σ → Prop
  | ended {s s' : Source σ} : s.readMessage limits = (.ok none, s') → Finding limits s [] s'
  | message {s s₁ s' : Source σ} {m : Message} {ms : List Message} :
      s.readMessage limits = (.ok (some m), s₁) → Finding limits s₁ ms s' → Finding limits s (m :: ms) s'

theorem finding_all (obliging : Device.Obliging ready) {limits : Limits} {fs : List Frame}
    (fits : ∀ f ∈ fs, f.Fits limits) {s : Source σ} (h : ready s.device) {rest : Bytes}
    (next : s.ahead = fs.flatMap Frame.bytes ++ (endMarker ++ rest)) :
    ∃ s', Finding limits s (fs.map Frame.found) s' ∧ s'.ahead = rest := by
  induction fs generalizing s with
  | nil =>
    obtain ⟨s', -, ran, ahead, -⟩ := readMessage_end obliging limits h next
    exact ⟨s', .ended ran, ahead⟩
  | cons f fs ih =>
    obtain ⟨own, others⟩ := List.forall_mem_cons.1 fits
    rw [List.flatMap_cons, List.append_assoc] at next
    have stands := own.stands (fs.flatMap Frame.bytes ++ (endMarker ++ rest))
    rw [← next] at stands
    obtain ⟨s₁, ready₁, ran, ahead, -⟩ := readMessage_of_stands obliging h stands own.admits
    obtain ⟨s', finding, last⟩ := ih others ready₁ ahead
    exact ⟨s', .message ran finding, last⟩

end Source

/-! ## Both -/

section

variable {σ τ : Type} [Device σ] [Device τ] {ready : σ → Prop} {ready' : τ → Prop}

/-- Any messages that say how long their bodies are can be written one after another, with the number of bytes as the
answer to each call, and are read back in order, with their metadata zero filled and their bodies as they were. Frames
of the other kind among them are read as well, without their padding. What can be decoded of the metadata is the same
in both. -/
theorem frames_read_back (obliging : Device.Obliging ready) (obliging' : Device.Obliging ready')
    (limits : Limits) :
    (∀ (ms : List Message) (s : Sink σ), ready s.device → (∀ m ∈ ms, (Frame.written m).Fits limits) →
      ∃ s' written, Sink.Writes s ms s' ∧ s'.content = s.content ++ written ∧
        ∀ r : Source τ, ready' r.device → r.ahead = written →
          ∃ r', Source.Finding limits r (ms.map fun m => ⟨filled m.metadata, m.body⟩) r' ∧ r'.ahead = []) ∧
    (∀ (fs : List Frame) (r : Source τ) (rest : Bytes), ready' r.device → (∀ f ∈ fs, f.Fits limits) →
      r.ahead = fs.flatMap Frame.bytes ++ (endMarker ++ rest) →
        ∃ r', Source.Finding limits r (fs.map Frame.found) r' ∧ r'.ahead = rest) ∧
    ∀ (f : Frame) (decoded : Metadata), Metadata.decode f.message.metadata = .ok decoded →
      Metadata.decode f.found.metadata = .ok decoded := by
  refine ⟨fun ms s h fits => ?_, fun fs r rest h fits next => Source.finding_all obliging' fits h next,
    fun f decoded => Frame.decode_found⟩
  obtain ⟨s', writes, content⟩ := Sink.writes_all obliging (fun m mem => (fits m mem).short) h
  refine ⟨s', _, writes, content, fun r h' next => ?_⟩
  have frames : (ms.map Frame.written).flatMap Frame.bytes = ms.flatMap Message.bytes := List.flatMap_map ..
  rw [← frames, ← List.append_nil endMarker] at next
  obtain ⟨r', finding, ahead⟩ := Source.finding_all obliging' (List.forall_mem_map.2 fits) h' next
  rw [List.map_map] at finding
  exact ⟨r', finding, ahead⟩

end

/-- Metadata of four bytes with a body of eight, as written, and metadata of three bytes without a body. -/
def mixedFrames : List Frame :=
  [.written ⟨[1, 1, 8, 0], #[7, 7, 7, 7, 7, 7, 7, 7]⟩, .loose ⟨[1, 1, 0], #[]⟩ [9, 9, 9, 9, 9] []]

theorem fits_mixedFrames : ∀ f ∈ mixedFrames, f.Fits {} := by
  have holds {n : Nat} (small : padded n ≤ 8) : Limits.Holds {} n := by
    refine ⟨lt_of_le_of_lt small (by decide), fun most bounded => ?_⟩
    cases bounded
    exact small.trans (by decide)
  intro f mem
  obtain rfl | rfl : f = _ ∨ f = _ := by simpa [mixedFrames] using mem
  · exact ⟨⟨_, _, rfl⟩, show padded 4 < Bytes.card 4 by decide, trivial, by decide, by decide, holds (by decide),
      holds (by decide)⟩
  · exact ⟨⟨_, _, rfl⟩, show padded 3 < Bytes.card 4 by decide, ⟨rfl, rfl⟩, by decide, by decide, holds (by decide),
      holds (by decide)⟩

theorem frames_read_back_mixed :
    (∃ s', Sink.Writes (⟨⟨true⟩, #[], 0⟩ : Sink Hesitant) [⟨[1, 1, 8, 0], #[7, 7, 7, 7, 7, 7, 7, 7]⟩] s') ∧
    (∃ r', Source.Finding {} (⟨⟨true⟩, (mixedFrames.flatMap Frame.bytes ++ endMarker).toArray, 0⟩ : Source Hesitant)
      [⟨[1, 1, 8, 0, 0, 0, 0, 0], #[7, 7, 7, 7, 7, 7, 7, 7]⟩, ⟨[1, 1, 0], #[]⟩] r') ∧
    Metadata.decode [1, 1, 8, 0, 0, 0, 0, 0] = .ok ⟨.schema ⟨[]⟩, 8⟩ := by
  obtain ⟨written, read, decoded⟩ := frames_read_back Hesitant.obliging Hesitant.obliging {}
  obtain ⟨s', _, writes, -⟩ := written [⟨[1, 1, 8, 0], #[7, 7, 7, 7, 7, 7, 7, 7]⟩] ⟨⟨true⟩, #[], 0⟩ trivial
    (by simpa using fits_mixedFrames _ (List.mem_cons_self ..))
  obtain ⟨r', finding, -⟩ := read mixedFrames
    ⟨⟨true⟩, (mixedFrames.flatMap Frame.bytes ++ endMarker).toArray, 0⟩ [] trivial fits_mixedFrames rfl
  exact ⟨⟨s', writes⟩, ⟨r', finding⟩, decoded (.written ⟨[1, 1, 8, 0], #[]⟩) _ rfl⟩

end ColumnStream
