/-
Bitmaps, packed least significant bit first: element `i` is bit `i % 8` of byte `i / 8`. A window
brings a range of bits down to position zero, two neighbouring bytes at a time. A count goes bit by
bit to the start of a byte, then by whole bytes, and bit by bit to the end.
-/
import ColumnStream.Buffer

namespace ColumnStream.Bitmap

/-! ## Single bits -/

def bit? (data : Buffer) (i : Nat) : Option Bool := data[i / 8]?.map (·.toNat.testBit (i % 8))

def get (data : Buffer) (i : Nat) : Result Bool :=
  match bit? data i with
  | some b => .ok b
  | none => misuse .outOfRange

def mask (i : Nat) : UInt8 := 1 <<< UInt8.ofNat (i % 8)

def put (data : Buffer) (i : Nat) : Buffer := data.modify (i / 8) (· ||| mask i)

def set (data : Buffer) (i : Nat) : Result Buffer :=
  if i / 8 < data.size then .ok (put data i) else misuse .outOfRange

def clear (data : Buffer) (i : Nat) : Result Buffer :=
  if i / 8 < data.size then .ok (data.modify (i / 8) (· &&& ~~~ mask i)) else misuse .outOfRange

/-! ## Windows -/

/-- The byte at `i`, zero past the end. -/
def byteAt (data : Buffer) (i : Nat) : UInt8 := data[i]?.getD 0

/-- The eight bits that start `shift` bits into byte `i`. -/
def straddling (data : Buffer) (shift i : Nat) : UInt8 :=
  byteAt data i >>> UInt8.ofNat shift ||| byteAt data (i + 1) <<< UInt8.ofNat (8 - shift)

/-- Clears the bits from `count` to the end of their byte. -/
def trim (count : Nat) (data : Buffer) : Buffer :=
  if count % 8 = 0 then data else data.modify (count / 8) (· &&& (mask count - 1))

/-- The bits from `offset` on, `count` of them, in a bitmap of their own that starts at bit zero
and is zero after its last bit. -/
def window (data : Buffer) (offset count : Nat) : Result Buffer :=
  let start := offset / 8
  let size := bytesFor count
  if offset % 8 = 0 then do
    return trim count (← data.slice start size)
  else if size = 0 ∨ start + size ≤ data.size then
    .ok (trim count (Array.ofFn fun i : Fin size => straddling data (offset % 8) (start + i)))
  else misuse .outOfRange

/-- The same range as it is stored: whole bytes where it starts at one, spare bits included, and a
window otherwise. -/
def packed (data : Buffer) (offset count : Nat) : Result Buffer :=
  if offset % 8 = 0 then data.slice (offset / 8) (bytesFor count) else window data offset count

/-! ## Counts -/

def onesIn (b : UInt8) : Nat := (List.range 8).countP b.toNat.testBit

/-- How far a count has come: the next position, how many bits are still to come, and how many of
those behind are set. -/
structure Tally where
  position : Nat
  left : Nat
  found : Nat
  deriving DecidableEq, Repr

/-- Bit by bit, up to a position where the count is to pause. -/
def countBits (data : Buffer) (pauses : Nat → Bool) : (left position found : Nat) → Result Tally
  | 0, position, found => .ok ⟨position, 0, found⟩
  | left + 1, position, found =>
    if pauses position then .ok ⟨position, left + 1, found⟩
    else do
      let bit ← get data position
      countBits data pauses left (position + 1) (found + bit.toNat)

/-- By whole bytes, from the start of one. -/
def countBytes (data : Buffer) : (left position found : Nat) → Result Tally
  | left + 8, position, found =>
    match data[position / 8]? with
    | some b => countBytes data left (position + 8) (found + onesIn b)
    | none => misuse .outOfRange
  | left, position, found => .ok ⟨position, left, found⟩

/-- Set bits among `count` from `offset` on. The scan goes by bytes, so that the word has to hold
the position one byte after its start as well. One byte after its end is too far only for a bitmap
of some 2^61 bytes, which no memory holds. -/
def countSet (data : Buffer) (offset count : Nat) : Result Nat := do
  let _ ← Word.add offset count
  let _ ← Word.add offset 8
  let lead ← countBits data (· % 8 == 0) count offset 0
  let whole ← countBytes data lead.left lead.position lead.found
  return (← countBits data (fun _ => false) whole.left whole.position whole.found).found

def countClear (data : Buffer) (offset count : Nat) : Result Nat := do
  Word.sub count (← countSet data offset count)

/-! ## Building -/

structure Builder where
  bytes : Buffer := #[]
  length : Nat := 0
  clear : Nat := 0
  deriving DecidableEq, Repr

namespace Builder

/-- Every eighth bit opens a byte. -/
def append : Builder → Bool → Builder
  | ⟨bytes, length, clear⟩, bit =>
    let bytes := if length % 8 = 0 then bytes.push 0 else bytes
    if bit then ⟨put bytes length, length + 1, clear⟩ else ⟨bytes, length + 1, clear + 1⟩

end Builder

/-! ## Small laws -/

theorem get_eq_ok {data : Buffer} {i : Nat} (h : i / 8 < data.size) :
    get data i = .ok (data[i / 8].toNat.testBit (i % 8)) := by
  simp [get, bit?, Array.getElem?_eq_getElem h]

@[simp] theorem size_put (data : Buffer) (i : Nat) : (put data i).size = data.size := by
  simp [put]

@[simp] theorem size_trim (count : Nat) (data : Buffer) : (trim count data).size = data.size := by
  unfold trim
  split <;> simp

example : window #[0xB4, 0x01] 2 7 = .ok #[0x6D] := by cbv
example : countSet #[0xB4, 0x01] 2 7 = .ok 5 := by cbv

end ColumnStream.Bitmap
