/-
Sizes for people: in the largest binary unit that is not too large, whole where that is exact and
with two decimals otherwise. A tie goes to the even digit.
-/
namespace ColumnStream.Size

def units : List String := ["B", "KiB", "MiB", "GiB", "TiB", "PiB", "EiB", "ZiB", "YiB"]

/-- The unit for `n` bytes, the first of those left being `size` bytes: its size and its name. -/
def unitOf (n : Nat) : (size : Nat) → List String → Nat × String
  | size, [] => (size, "")
  | size, name :: more =>
    if n < 1024 * size ∨ more.isEmpty then (size, name) else unitOf n (1024 * size) more

/-- `a / b` to the nearest integer, and from halfway to the even one. -/
def nearest (a b : Nat) : Nat :=
  let q := a / b
  let twice := 2 * (a % b)
  if twice < b then q else if b < twice then q + 1 else q + q % 2

def text (n : Nat) : String :=
  let (size, name) := unitOf n 1 units
  if n % size = 0 then s!"{n / size} {name}"
  else
    let hundredths := nearest (100 * n) size
    let low := hundredths % 100
    s!"{hundredths / 100}." ++ (if low < 10 then "0" else "") ++ s!"{low} {name}"

example : text 1152 = "1.12 KiB" ∧ text 1408 = "1.38 KiB" := by decide +kernel
example : text 1023 = "1023 B" ∧ text (3 * 1024 * 1024) = "3 MiB" := by decide +kernel

end ColumnStream.Size
