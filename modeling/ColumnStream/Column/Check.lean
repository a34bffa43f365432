/-
What makes a column well formed, checked in a fixed order: as many buffers and children as the type
takes, children of the right types, no more nulls than elements, a last position inside the word,
buffers long enough for every position up to it, a bitmap with as many nulls as declared, and then
what the type asks of its contents.
-/
import ColumnStream.Column.Basic

namespace ColumnStream.Column

def refuse {α : Type} (cause : ColumnProblem) : Result α := fail (.invalidColumn cause)

/-- One past the last position in use. -/
def stop (c : Column) : Nat := c.offset + c.length

/-! ## Shape -/

def checkChildTypes : List Column → List Field → Result Unit
  | child :: children, field :: fields =>
    if child.type = field.type then checkChildTypes children fields
    else refuse (.childType field.name child.type field.type)
  | _, _ => .ok ()

def checkShape (c : Column) : Result Unit :=
  if c.buffers.length ≠ c.type.roles.length then
    refuse (.bufferCount c.type c.type.roles.length c.buffers.length)
  else if c.children.length ≠ c.type.children.length then
    refuse (.childCount c.type c.type.children.length c.children.length)
  else checkChildTypes c.children c.type.children

def checkExtent (c : Column) : Result Unit :=
  if c.length < c.nullCount then refuse (.nullsPastLength c.nullCount c.length)
  else if wordSize ≤ c.stop then refuse (.extent c.offset c.length)
  else .ok ()

/-! ## Buffers -/

def checkBuffer (c : Column) (buffer : Buffer) (role : Role) : Result Unit :=
  if role = .validity ∧ buffer.isEmpty then
    if c.nullCount = 0 then .ok () else refuse (.nullsWithoutValidity c.nullCount)
  else
    match c.type.leastLength? role c.stop with
    | none => refuse (.bufferOverflow role c.stop)
    | some required =>
      if required ≤ buffer.size then .ok () else refuse (.bufferShort role buffer.size required)

def checkBuffers (c : Column) : List Buffer → List Role → Result Unit
  | buffer :: buffers, role :: roles => do
    c.checkBuffer buffer role
    checkBuffers c buffers roles
  | _, _ => .ok ()

def checkNulls (c : Column) : Result Unit :=
  match c.validity? with
  | none => .ok ()
  | some validity => do
    let counted ← Bitmap.countClear validity c.offset c.length
    if counted = c.nullCount then .ok () else fail (.nullCountMismatch c.nullCount counted)

/-! ## Contents -/

/-- The last of `count` further offsets from `position` on, none of which may be below the one
before it. -/
def lastOffset (offsets : Buffer) : (position previous count : Nat) → Result Nat
  | _, previous, 0 => .ok previous
  | position, previous, count + 1 => do
    let current ← offsetEntry offsets position
    if previous ≤ current then lastOffset offsets (position + 1) current count
    else fail (.invalidOffsets (.decreasing current position previous))

/-- The offsets rise and stay within `limit`. -/
def checkOffsets (c : Column) (limit : Nat) : Result Unit :=
  if c.length = 0 then .ok ()
  else do
    let offsets := c.bytesOf .offsets
    let first ← offsetEntry offsets c.offset
    let last ← lastOffset offsets (c.offset + 1) first c.length
    if last ≤ limit then .ok () else fail (.invalidOffsets (.past last limit))

/-- Element `i` is null or UTF-8. -/
def checkText (c : Column) (i : Nat) : Result Unit := do
  match ← c.unlessNull i (c.variableBytes i) with
  | none => .ok ()
  | some text => if text.text?.isSome then .ok () else refuse (.textNotUtf8 i)

def checkTexts (c : Column) : (i count : Nat) → Result Unit
  | _, 0 => .ok ()
  | i, count + 1 => do
    c.checkText i
    checkTexts c (i + 1) count

def checkMembers (c : Column) : List Column → Result Unit
  | [] => .ok ()
  | child :: children =>
    if c.stop ≤ child.length then checkMembers c children
    else refuse (.memberShort child.length c.stop)

def checkContents (c : Column) : Result Unit :=
  match c.type with
  | .binary => c.checkOffsets (c.bytesOf .values).size
  | .utf8 => do
    c.checkOffsets (c.bytesOf .values).size
    c.checkTexts 0 c.length
  | .list _ => c.checkOffsets ((c.children.head?.map (·.length)).getD 0)
  | .struct _ => c.checkMembers c.children
  | .boolean | .fixed _ => .ok ()

def check (c : Column) : Result Unit := do
  c.checkShape
  c.checkExtent
  c.checkBuffers c.buffers c.type.roles
  c.checkNulls
  c.checkContents

/-- The column of these parts, if they fit together. -/
def assemble (type : DataType) (length nullCount offset : Nat) (buffers : List Buffer)
    (children : List Column) : Result Column := do
  let c : Column := ⟨type, length, nullCount, offset, buffers, children⟩
  c.check
  return c

end ColumnStream.Column
