/-
Devices that bytes are written to and read from. A device answers each call in its own way: it
moves some of the bytes, possibly none, or refuses. It may be interrupted, but not for ever:
`patience` falls with every interrupted call. Writing and reading repeat an interrupted call.
-/
import ColumnStream.Buffer

namespace ColumnStream

class Device (σ : Type) where
  /-- A call to move up to `count` bytes when `position` of them are behind, and how many the
  device is willing to move. -/
  transfer : σ → (position count : Nat) → Except DeviceError Nat × σ
  flush : σ → Except DeviceError Unit × σ
  patience : σ → Nat
  patience_lt : ∀ (s s' : σ) (position count : Nat),
    transfer s position count = (.error .interrupted, s') → patience s' < patience s

/-! ## Sinks -/

structure Sink (σ : Type) where
  device : σ
  written : Buffer := #[]
  flushes : Nat := 0

namespace Sink

variable {σ : Type} [Device σ]

/-- One call that offers the bytes from `start` on, and how many of them went in. -/
def offer (s : Sink σ) (b : Buffer) (start : Nat) : Except DeviceError Nat × Sink σ :=
  match s with
  | ⟨device, written, flushes⟩ =>
    match Device.transfer device written.size (b.size - start) with
    | (.error cause, device) => (.error cause, ⟨device, written, flushes⟩)
    | (.ok count, device) =>
      let moved := min count (b.size - start)
      (.ok moved, ⟨device, written ++ b.extract start (start + moved), flushes⟩)

theorem patience_offer {s s' : Sink σ} {b : Buffer} {start : Nat}
    (h : s.offer b start = (.error .interrupted, s')) :
    Device.patience s'.device < Device.patience s.device := by
  unfold offer at h
  split at h
  rename_i device written flushes
  split at h
  · rename_i cause device' call
    cases h
    exact Device.patience_lt _ _ _ _ call
  · cases h

/-- Offers the bytes from `start` on until all are in. A call that takes none is a failure. -/
def writeFrom (s : Sink σ) (b : Buffer) (start : Nat) : Result Unit × Sink σ :=
  if b.size ≤ start then (.ok (), s)
  else
    match _call : s.offer b start with
    | (.ok 0, s') => (fail (.device .writeZero), s')
    | (.ok (count + 1), s') => writeFrom s' b (start + (count + 1))
    | (.error .interrupted, s') => writeFrom s' b start
    | (.error cause, s') => (fail (.device cause), s')
termination_by (b.size - start, Device.patience s.device)
decreasing_by
  · left
    omega
  · right
    exact patience_offer _call

def writeAll (s : Sink σ) (b : Buffer) : Result Unit × Sink σ := s.writeFrom b 0

/-- Offers one part after another, up to the first failure. -/
def writeParts (s : Sink σ) : List Buffer → Result Unit × Sink σ
  | [] => (.ok (), s)
  | part :: parts =>
    match s.writeAll part with
    | (.error e, s') => (.error e, s')
    | (.ok (), s') => writeParts s' parts

def flush (s : Sink σ) : Result Unit × Sink σ :=
  match Device.flush s.device with
  | (.error cause, device) =>
    (fail (.device cause), { s with device := device, flushes := s.flushes + 1 })
  | (.ok (), device) => (.ok (), { s with device := device, flushes := s.flushes + 1 })

/-- Appends bytes past the device. -/
def append (s : Sink σ) (b : Buffer) : Sink σ := { s with written := s.written ++ b }

end Sink

/-! ## Sources -/

structure Source (σ : Type) where
  device : σ
  data : Buffer
  taken : Nat := 0

namespace Source

variable {σ : Type}

def remaining (s : Source σ) : Nat := s.data.size - s.taken

/-- The bytes still to be read. -/
def rest (s : Source σ) : Buffer := s.data.extract s.taken

/-- The source with bytes added at its end. -/
def append (s : Source σ) (b : Buffer) : Source σ := { s with data := s.data ++ b }

/-- The bytes of `s'` are those of `s`, and as many fewer remain as more are taken. -/
structure Follows (s' s : Source σ) : Prop where
  data : s'.data = s.data
  taken : s.taken ≤ s'.taken
  remaining : s'.taken + s'.remaining = s.taken + s.remaining

namespace Follows

theorem refl (s : Source σ) : Follows s s := ⟨rfl, Nat.le_refl _, rfl⟩

theorem trans {s₁ s₂ s₃ : Source σ} (h : Follows s₃ s₂) (h' : Follows s₂ s₁) : Follows s₃ s₁ :=
  ⟨h.data.trans h'.data, Nat.le_trans h'.taken h.taken, h.remaining.trans h'.remaining⟩

theorem le {s' s : Source σ} (h : Follows s' s) : s'.remaining ≤ s.remaining := by
  have := h.taken
  have := h.remaining
  omega

/-- What was taken on the way stands before what remains. -/
theorem rest_eq {s' s : Source σ} (h : Follows s' s) :
    s.rest = s.data.extract s.taken s'.taken ++ s'.rest := by
  have balance := h.remaining
  simp only [Source.remaining, h.data] at balance
  simp only [rest, h.data]
  rw [ Array.extract_append_extract, Nat.min_eq_left h.taken]
  by_cases inside : s'.taken ≤ s.data.size
  · rw [Nat.max_eq_right inside]
  · rw [Array.extract_eq_empty_of_le (by omega), Array.extract_eq_empty_of_le (by omega)]

end Follows

variable [Device σ]

/-- One call that asks for `count` bytes, and how many came. -/
def ask (s : Source σ) (count : Nat) : Except DeviceError Nat × Source σ :=
  let most := min count s.remaining
  match Device.transfer s.device s.taken most with
  | (.error cause, device) => (.error cause, { s with device := device })
  | (.ok willing, device) =>
    let moved := min willing most
    (.ok moved, { s with device := device, taken := s.taken + moved })

theorem patience_ask {s s' : Source σ} {count : Nat}
    (h : s.ask count = (.error .interrupted, s')) :
    Device.patience s'.device < Device.patience s.device := by
  simp only [ask] at h
  split at h
  · rename_i cause device call
    cases h
    exact Device.patience_lt _ _ _ _ call
  · cases h

/-- Asks until `count` bytes have come or a call brings none. -/
def advance (s : Source σ) (count : Nat) : Result Unit × Source σ :=
  if count = 0 then (.ok (), s)
  else
    match _call : s.ask count with
    | (.ok 0, s') => (.ok (), s')
    | (.ok (moved + 1), s') => advance s' (count - (moved + 1))
    | (.error .interrupted, s') => advance s' count
    | (.error cause, s') => (fail (.device cause), s')
termination_by (count, Device.patience s.device)
decreasing_by
  · left
    omega
  · right
    exact patience_ask _call

/-- As many of the next `count` bytes as there are. -/
def fill (s : Source σ) (count : Nat) : Result Buffer × Source σ :=
  match s.advance count with
  | (.error e, s') => (.error e, s')
  | (.ok (), s') => (.ok (s.data.extract s.taken s'.taken), s')

/-! ### Reading moves forward through the same bytes -/

theorem follows_ask (s : Source σ) (count : Nat) : Follows (s.ask count).2 s := by
  simp only [ask]
  split
  · exact ⟨rfl, Nat.le_refl _, rfl⟩
  · refine ⟨rfl, Nat.le_add_right _ _, ?_⟩
    simp only [remaining]
    omega

theorem follows_advance (s : Source σ) (count : Nat) : Follows (s.advance count).2 s := by
  have step {s s' : Source σ} {count : Nat} {out : Except DeviceError Nat}
      (call : s.ask count = (out, s')) : Follows s' s := by
    have := follows_ask s count
    rwa [call] at this
  fun_induction advance s count with
  | case1 => exact .refl _
  | case2 s count more s' call => exact step call
  | case3 s count more moved s' call ih => exact ih.trans (step call)
  | case4 s count more s' call ih => exact ih.trans (step call)
  | case5 s count more cause s' other call => exact step call

theorem follows_fill (s : Source σ) (count : Nat) : Follows (s.fill count).2 s := by
  have := follows_advance s count
  unfold fill
  split <;> rename_i call <;> rwa [call] at this

/-- What `fill` brings is exactly what it takes. -/
theorem rest_fill_ok {s s' : Source σ} {count : Nat} {b : Buffer} (h : s.fill count = (.ok b, s')) :
    s.rest = b ++ s'.rest := by
  have after := follows_fill s count
  rw [h] at after
  rw [after.rest_eq]
  unfold fill at h
  split at h <;> cases h
  rfl

end Source

/-! ## A device without limits -/

/-- A device that moves whatever it is given, at once. -/
inductive Direct
  | direct
  deriving DecidableEq, Repr

instance : Device Direct where
  transfer s _ count := (.ok count, s)
  flush s := (.ok (), s)
  patience _ := 0
  patience_lt := by intro s s' position count h; cases h

/-- The bytes as a source that delivers them directly. -/
def Source.ofBuffer (b : Buffer) : Source Direct := { device := .direct, data := b }

end ColumnStream
