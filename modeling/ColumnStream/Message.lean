/-
Messages as they stand in a stream: a marker, the padded length of the metadata, the metadata and
the body, each zero filled to the alignment. The length of the body is in the metadata. A marker
with length zero ends the stream; so does running out of bytes before a marker.
-/
import ColumnStream.Metadata.Decode
import ColumnStream.Transport.Device
import ColumnStream.Word

namespace ColumnStream

structure Message where
  metadata : Bytes
  body : Buffer
  deriving DecidableEq, Repr

def continuation : Bytes := [0xFF, 0xFF, 0xFF, 0xFF]

/-- Bytes before the metadata. -/
def markerLength : Nat := 8

/-- The marker that ends a stream. -/
def endMarker : Bytes := continuation ++ Bytes.zeros 4

/-! ## Writing -/

namespace Message

/-- The marker before a metadata block of that length. -/
def marker (metadataLength : Nat) : Result Bytes :=
  if padded metadataLength < Bytes.card 4 then
    .ok (continuation ++ Bytes.ofNat 4 (padded metadataLength))
  else fail .outOfBounds

/-- The pieces in which a message is written. -/
def parts (m : Message) : Result (List Buffer) := do
  let marker ← marker m.metadata.length
  return [marker.toArray, m.metadata.toArray, Buffer.zeros (padding m.metadata.length),
    m.body, Buffer.zeros (padding m.body.size)]

/-- Bytes that the message takes in a stream. -/
def size (m : Message) : Nat := markerLength + padded m.metadata.length + padded m.body.size

end Message

namespace Sink

variable {σ : Type} [Device σ]

def writeMessage (s : Sink σ) (m : Message) : Result Nat × Sink σ :=
  match m.parts with
  | .error e => (.error e, s)
  | .ok parts =>
    match s.writeParts parts with
    | (.error e, s') => (.error e, s')
    | (.ok (), s') => (.ok m.size, s')

def writeEnd (s : Sink σ) : Result Nat × Sink σ :=
  match s.writeAll endMarker.toArray with
  | (.error e, s') => (.error e, s')
  | (.ok (), s') => (.ok endMarker.length, s')

end Sink

/-! ## Reading -/

/-- What a reader is prepared to read. `block` is the largest block of memory to be had, if there
is such a bound. -/
structure Limits where
  maxMetadata : Nat := 16 * 1024 * 1024
  maxBody : Nat := 1024 * 1024 * 1024
  block : Option Nat := some largestBlock
  deriving DecidableEq, Repr

namespace Limits

/-- The length of the metadata after a marker that was read completely. -/
def ofMarker (limits : Limits) (marker : Bytes) : Result (Option Nat) :=
  if marker.take 4 ≠ continuation then fail (.corruptStream (.marker (marker.take 4)))
  else
    let length := Bytes.toNat (marker.drop 4)
    if length = 0 then .ok none
    else if limits.maxMetadata < length then
      fail (.corruptStream (.metadataTooLong length limits.maxMetadata))
    else .ok (some length)

/-- The length of the metadata, or none at the end of the stream. -/
def metadataLength (limits : Limits) (found : Buffer) : Result (Option Nat) :=
  if found.isEmpty then .ok none
  else if found.size < markerLength then fail (.corruptStream (.endsInMarker found.size))
  else limits.ofMarker found.toList

/-- The length of the body that a metadata block declares. -/
def bodyLength (limits : Limits) (metadata : Bytes) : Result Nat := do
  let ((_, length), _) ← Metadata.parsePrelude.run (.corruptStream <| .prelude ·) metadata
  if limits.maxBody < length then
    fail (.corruptStream (.bodyTooLong length limits.maxBody))
  else return length

/-- The room to read a section of that length with its padding. -/
def room (limits : Limits) (length : Nat) : Result Nat := do
  let size ← Word.add length (padding length)
  match limits.block with
  | some most => if size ≤ most then return size else misuse .allocation
  | none => return size

end Limits

/-- A section that was read into a room of `size` bytes: it has to fill the room, and leaves its
padding there. -/
def Section.finish (part : Section) (length size : Nat) (found : Buffer) : Result Buffer :=
  if found.size < size then fail (.corruptStream (.endsInSection part size found.size))
  else .ok (found.extract 0 length)

theorem Section.finish_of_lt (part : Section) {length size : Nat} {found : Buffer} (h : found.size < size) :
    part.finish length size found = fail (.corruptStream (.endsInSection part size found.size)) :=
  if_pos h

theorem Section.finish_of_le (part : Section) {length size : Nat} {found : Buffer} (h : size ≤ found.size) :
    part.finish length size found = .ok (found.extract 0 length) :=
  if_neg (Nat.not_lt.2 h)

theorem Section.finish_cases (part : Section) (length size : Nat) (found : Buffer) :
    part.finish length size found = fail (.corruptStream (.endsInSection part size found.size)) ∨
      part.finish length size found = .ok (found.extract 0 length) :=
  (Nat.lt_or_ge found.size size).imp part.finish_of_lt part.finish_of_le

namespace Source

variable {σ : Type} [Device σ]

/-- A section, which is read with its padding. -/
def readSection (limits : Limits) (part : Section) (length : Nat) (s : Source σ) :
    Result Buffer × Source σ :=
  match limits.room length with
  | .error e => (.error e, s)
  | .ok size =>
    match s.fill size with
    | (.error e, s') => (.error e, s')
    | (.ok found, s') => (part.finish length size found, s')

/-- The next message, or none at the end of the stream. -/
def readMessage (limits : Limits) (s : Source σ) : Result (Option Message) × Source σ :=
  match s.fill markerLength with
  | (.error e, s₁) => (.error e, s₁)
  | (.ok marker, s₁) =>
    match limits.metadataLength marker with
    | .error e => (.error e, s₁)
    | .ok none => (.ok none, s₁)
    | .ok (some length) =>
      match s₁.readSection limits .metadata length with
      | (.error e, s₂) => (.error e, s₂)
      | (.ok metadata, s₂) =>
        match limits.bodyLength metadata.toList with
        | .error e => (.error e, s₂)
        | .ok bodyLength =>
          match s₂.readSection limits .body bodyLength with
          | (.error e, s₃) => (.error e, s₃)
          | (.ok body, s₃) => (.ok (some ⟨metadata.toList, body⟩), s₃)

theorem follows_readSection (limits : Limits) (part : Section) (length : Nat) (s : Source σ) :
    Follows (s.readSection limits part length).2 s := by
  unfold readSection
  split
  · exact .refl _
  · rename_i size _
    have after := follows_fill s size
    split <;> rename_i call <;> rw [call] at after <;> exact after

/-- A message takes bytes. -/
theorem remaining_readMessage_lt {limits : Limits} {s s' : Source σ} {m : Message}
    (h : s.readMessage limits = (.ok (some m), s')) : s'.remaining < s.remaining := by
  unfold readMessage at h
  split at h
  · cases h
  · rename_i marker s₁ call
    have taken := congrArg Array.size (rest_fill_ok call)
    split at h
    · cases h
    · cases h
    · rename_i length found
      have nonempty : 0 < marker.size := by
        cases size : marker.size with
        | zero => simp [Limits.metadataLength, Array.eq_empty_of_size_eq_zero size] at found
        | succ _ => omega
      have first : s₁.remaining < s.remaining := by
        simp only [rest, Array.size_append, Array.size_extract] at taken
        simp only [remaining]
        omega
      have second := (follows_readSection limits .metadata length s₁).le
      split at h
      · cases h
      · rename_i metadata s₂ call₂
        rw [call₂] at second
        split at h
        · cases h
        · rename_i bodyLength _
          have third := (follows_readSection limits .body bodyLength s₂).le
          split at h
          · cases h
          · rename_i body s₃ call₃
            rw [call₃] at third
            cases h
            simp only at second third
            omega

end Source

end ColumnStream
