/-
Buffers: blocks of memory that are read at any position at once and grow at their end. What a
buffer means is the list of its bytes; each operation here is described by that list.
-/
import ColumnStream.Word

namespace ColumnStream

abbrev Buffer := Array UInt8

/-- Bytes of the largest block of memory there can be. -/
def largestBlock : Nat := 0x7FFFFFFFFFFFFFFF

namespace Buffer

/-! ## Parts -/

/-- `count` bytes from `offset`. -/
def slice (b : Buffer) (offset count : Nat) : Result Buffer :=
  if offset + count ≤ b.size then .ok (b.extract offset (offset + count)) else misuse .outOfRange

/-- The bytes from `start` up to `stop`. -/
def range (b : Buffer) (start stop : Nat) : Result Buffer :=
  if start ≤ stop then slice b start (stop - start) else misuse .outOfRange

/-- The text that the bytes spell, if they are UTF-8. -/
def text? (b : Buffer) : Option String := String.fromUTF8? ⟨b⟩

/-! ## Growth -/

def zeros (n : Nat) : Buffer := Array.replicate n 0

/-- The bytes, zero filled up to the alignment. -/
def pad (b : Buffer) : Buffer := b ++ zeros (padding b.size)

/-- The bytes with `count` zeros after them, as far as there is memory. -/
def extendZeros (b : Buffer) (count : Nat) : Result Buffer := do
  let size ← Word.add b.size count
  if size ≤ largestBlock then return b ++ zeros count else misuse .allocation

/-! ## Laws -/

theorem slice_eq_ok {b : Buffer} {offset count : Nat} (h : offset + count ≤ b.size) :
    b.slice offset count = .ok (b.extract offset (offset + count)) := if_pos h

theorem slice_all (b : Buffer) : b.slice 0 b.size = .ok b := by
  rw [slice_eq_ok (by omega)]
  simp

theorem toList_extract_add (b : Buffer) (offset count : Nat) :
    (b.extract offset (offset + count)).toList = (b.toList.drop offset).take count := by
  simp [List.extract_eq_take_drop]

@[simp] theorem size_zeros (n : Nat) : (zeros n).size = n := by simp [zeros]

@[simp] theorem toList_zeros (n : Nat) : (zeros n).toList = Bytes.zeros n := by
  simp [zeros, Bytes.zeros]

@[simp] theorem size_pad (b : Buffer) : b.pad.size = padded b.size := by simp [pad, padded]

end Buffer

end ColumnStream
