/-
Flat columns built one element at a time. A null occupies a place like any other element; the
validity bitmap is stored only if there was one.
-/
import ColumnStream.Column.Check

namespace ColumnStream

namespace Bitmap.Builder

/-- The null count and the validity buffer of a finished column. -/
def validity (b : Builder) : Nat × Buffer := if b.clear = 0 then (0, #[]) else (b.clear, b.bytes)

end Bitmap.Builder

/-! ## Fixed width -/

structure FixedBuilder where
  kind : Primitive
  values : Buffer := #[]
  valid : Bitmap.Builder := {}

namespace FixedBuilder

/-- An empty builder with memory set aside for `count` values. -/
def withRoom (kind : Primitive) (count : Nat) : Result FixedBuilder := do
  if (← Word.mul count kind.width) ≤ largestBlock then return { kind } else misuse .allocation

def length (b : FixedBuilder) : Nat := b.valid.length

def nullCount (b : FixedBuilder) : Nat := b.valid.clear

/-- The bytes that stand for an element; those of a null are zero. -/
def stored (kind : Primitive) : Option Int → Bytes
  | some value => kind.encode value
  | none => Bytes.zeros kind.width

def append : FixedBuilder → Option Int → FixedBuilder
  | ⟨kind, values, valid⟩, value =>
    ⟨kind, values ++ stored kind value, valid.append value.isSome⟩

def finish (b : FixedBuilder) : Result Column :=
  let (nulls, validity) := b.valid.validity
  Column.assemble (.fixed b.kind) b.length nulls 0 [validity, b.values] []

end FixedBuilder

/-! ## Booleans -/

structure BooleanBuilder where
  values : Bitmap.Builder := {}
  valid : Bitmap.Builder := {}

namespace BooleanBuilder

def length (b : BooleanBuilder) : Nat := b.valid.length

def append : BooleanBuilder → Option Bool → BooleanBuilder
  | ⟨values, valid⟩, value => ⟨values.append (value.getD false), valid.append value.isSome⟩

def finish (b : BooleanBuilder) : Result Column :=
  let (nulls, validity) := b.valid.validity
  Column.assemble .boolean b.length nulls 0 [validity, b.values.bytes] []

end BooleanBuilder

/-! ## Variable length -/

/-- Bytes, or text that is checked at the end. -/
structure VariableBuilder where
  isText : Bool
  /-- Where each element stops among the values, after a zero for the first start. -/
  bounds : Array Nat := #[0]
  values : Buffer := #[]
  valid : Bitmap.Builder := {}

namespace VariableBuilder

def length (b : VariableBuilder) : Nat := b.valid.length

def append : VariableBuilder → Option Buffer → VariableBuilder
  | ⟨isText, bounds, values, valid⟩, value =>
    let values := values ++ value.getD #[]
    ⟨isText, bounds.push values.size, values, valid.append value.isSome⟩

def finish (b : VariableBuilder) : Result Column := do
  let offsets ← if b.length = 0 then pure #[] else b.bounds.toList.foldlM Column.appendOffset #[]
  let (nulls, validity) := b.valid.validity
  Column.assemble (if b.isText then .utf8 else .binary) b.length nulls 0
    [validity, offsets, b.values] []

end VariableBuilder

end ColumnStream
