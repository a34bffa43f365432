/-
Parsers over a byte string: each takes bytes off the front or stops. It stops either because the
bytes cannot be read as what they should be, or because what was read is refused for a cause. What is
read is put together over the steps that `Parsing` names, so that whatever takes these steps can be
run on the same grammar.
-/
import ColumnStream.Metadata.Varint

namespace ColumnStream

/-! ## Steps -/

/-- The steps of reading. `round` stands around each round of a loop, and `nested` around whatever is
read one level of nesting down. -/
class Parsing (m : Type → Type) where
  byte : m UInt8
  varint : m Nat
  bytes (count : Nat) : m Bytes
  refuse {α : Type} (cause : Error) : m α
  /-- How many of `count` items room is made for before they are read. -/
  room (count : Nat) : m Nat
  round {α : Type} (item : m α) : m α
  nested {α : Type} (p : m α) : m α

namespace Parsing

variable {m : Type → Type} [Monad m] [Parsing m] {α : Type}

def timesOnto (item : m α) (read : Array α) : Nat → m (Array α)
  | 0 => return read
  | count + 1 => do timesOnto item (read.push (← round item)) count

/-- `count` items in a row. -/
def times (count : Nat) (item : m α) : m (List α) := do
  let read ← timesOnto item (.emptyWithCapacity (← room count)) count
  return read.toList

/-- A count and that many items. -/
def counted (item : m α) : m (List α) := do times (← varint) item

end Parsing

/-! ## Parsers -/

inductive Stop
  | unreadable (problem : ParseProblem)
  | refused (cause : Error)
  deriving DecidableEq, Repr

abbrev Parser := StateT Bytes (Except Stop)

namespace Parser

def stop {α : Type} (reason : Stop) : Parser α := fun _ => .error reason

def refuse {α : Type} (cause : Error) : Parser α := stop (.refused cause)

def byte : Parser UInt8
  | [] => .error (.unreadable .endOfInput)
  | b :: rest => .ok (b, rest)

def varint : Parser Nat := fun input =>
  match Varint.decode input with
  | .ok read => .ok read
  | .error problem => .error (.unreadable problem)

/-- The next `count` bytes. Only as much of the input is looked at. -/
def bytes (count : Nat) : Parser Bytes := fun input =>
  let found := input.take count
  if found.length = count then .ok (found, input.drop count)
  else .error (.unreadable (.missing (count - found.length)))

/-- Room for `count` items still to be read: none takes less than a byte. -/
def capacity (count : Nat) (input : Bytes) : Nat := (input.take count).length

theorem capacity_eq (count : Nat) (input : Bytes) : capacity count input = min count input.length :=
  List.length_take

def room (count : Nat) : Parser Nat := fun input => .ok (capacity count input, input)

instance : Parsing Parser where
  byte := byte
  varint := varint
  bytes := bytes
  refuse := refuse
  room := room
  round item := item
  nested p := p

/-- What the parser finds, with the bytes it leaves; unreadable input is reported as `report`
words it. -/
def run {α : Type} (p : Parser α) (report : ParseProblem → Error) (input : Bytes) :
    Result (α × Bytes) :=
  match p input with
  | .ok read => .ok read
  | .error (.unreadable problem) => fail (report problem)
  | .error (.refused cause) => fail cause

end Parser

end ColumnStream
