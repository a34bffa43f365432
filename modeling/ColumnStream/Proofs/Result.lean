/-
Reading results apart: what it takes for a chain of operations to succeed, operations that answer whatever
their input, with a result or an error and never with a fault, pairs of operations that end alike, and tests that
give a verdict on a proposition.
-/
import ColumnStream.Word

namespace ColumnStream

/-! ## Chains of operations -/

theorem ok_bind {α β : Type} (a : α) (f : α → Result β) : (Except.ok a >>= f) = f a := rfl

theorem bind_eq_ok {α β : Type} {x : Result α} {f : α → Result β} {b : β} :
    x >>= f = .ok b ↔ ∃ a, x = .ok a ∧ f a = .ok b := by
  cases x with
  | error e => exact ⟨fun h => (nomatch h), fun ⟨_, h, _⟩ => (nomatch h)⟩
  | ok a => exact ⟨fun h => ⟨a, rfl, h⟩, fun ⟨_, h, h'⟩ => by cases h; exact h'⟩

/-- Two chains that start alike and, from whatever their start brings, go on alike. -/
theorem bind_congr_ok {α β : Type} {x y : Result α} {f g : α → Result β} (start : x = y)
    (next : ∀ a, y = .ok a → f a = g a) : x >>= f = y >>= g := by
  subst start
  cases x with
  | error e => rfl
  | ok a => exact next a rfl

theorem mapM_eq_ok {α β : Type} {read : α → Result β} {f : α → β} {l : List α} (h : ∀ a ∈ l, read a = .ok (f a)) :
    l.mapM read = .ok (l.map f) := by
  induction l with
  | nil => rfl
  | cons a l ih =>
    obtain ⟨first, rest⟩ := List.forall_mem_cons.1 h
    rw [List.mapM_cons, first, ok_bind, ih rest]
    rfl

/-! ### Words -/

theorem Word.add_ok {a b n : Nat} (h : add a b = .ok n) : n = a + b ∧ a + b < wordSize := by
  unfold add at h
  split at h <;> cases h
  exact ⟨rfl, ‹_›⟩

theorem Word.mul_ok {a b n : Nat} (h : mul a b = .ok n) : n = a * b ∧ a * b < wordSize := by
  unfold mul at h
  split at h <;> cases h
  exact ⟨rfl, ‹_›⟩

/-! ## Answers -/

/-- The operation ends with a result for which `post` holds, or for one of the causes; it is no fault. -/
def Answers {α : Type} (causes : Error → Prop) (post : α → Prop) : Result α → Prop
  | .ok a => post a
  | .error (.error cause) => causes cause
  | .error (.fault _) => False

namespace Answers

variable {α β : Type} {causes : Error → Prop} {post : α → Prop} {x : Result α}

theorem of_ok {a : α} (ran : x = .ok a) (h : post a) : Answers causes post x := ran ▸ h

theorem of_fail {cause : Error} (ran : x = fail cause) (h : causes cause) : Answers causes post x := ran ▸ h

theorem holds {a : α} (h : Answers causes post x) (ran : x = .ok a) : post a := by
  subst ran
  exact h

/-- A failure is the same failure of whatever came of it. -/
theorem error {e : Failure} {post' : β → Prop} (h : Answers causes post (.error e : Result α)) :
    Answers causes post' (.error e : Result β) := by
  cases e <;> exact h

theorem cases (h : Answers causes post x) : (∃ a, x = .ok a ∧ post a) ∨ ∃ cause, x = fail cause ∧ causes cause := by
  rcases x with (cause | fault) | a
  · exact .inr ⟨cause, rfl, h⟩
  · cases h
  · exact .inl ⟨a, rfl, h⟩

/-- What comes second may rely on what the first operation found. -/
theorem bind {f : α → Result β} {post' : β → Prop} (h : Answers causes post x)
    (next : ∀ a, x = .ok a → post a → Answers causes post' (f a)) : Answers causes post' (x >>= f) := by
  rcases h.cases with ⟨a, rfl, holds⟩ | ⟨cause, rfl, allowed⟩
  · exact next a rfl holds
  · exact allowed

theorem mono {post' : α → Prop} (h : Answers causes post x) (le : ∀ a, x = .ok a → post a → post' a) :
    Answers causes post' x := by
  rcases h.cases with ⟨a, rfl, holds⟩ | ⟨cause, rfl, allowed⟩
  · exact le a rfl holds
  · exact allowed

theorem widen {causes' : Error → Prop} (h : Answers causes post x) (le : ∀ cause, causes cause → causes' cause) :
    Answers causes' post x := by
  rcases h.cases with ⟨a, rfl, holds⟩ | ⟨cause, rfl, allowed⟩
  · exact holds
  · exact le cause allowed

end Answers

/-! ### Causes -/

namespace Error

/-- The cause lies in a schema. -/
def Malformed (cause : Error) : Prop := ∃ problem, cause = .malformedSchema problem

/-- The cause lies in the stream. -/
def Corrupt (cause : Error) : Prop := ∃ problem, cause = .corruptStream problem

/-- The cause lies in the bytes of a message: in its schema, in its metadata or in the columns of its body. It is
neither a writer nor a device, nor a number that is out of bounds. -/
def OfMessage : Error → Prop
  | .schemaMismatch | .writerClosed | .outOfBounds | .device _ => False
  | _ => True

/-- The cause lies in the parts of a column. -/
def OfColumn : Error → Prop
  | .invalidColumn _ | .nullCountMismatch _ _ | .invalidOffsets _ => True
  | _ => False

/-- The cause lies in how columns make up a batch. -/
def OfBatch : Error → Prop
  | .invalidBatch _ => True
  | _ => False

theorem OfColumn.ofMessage {cause : Error} (h : cause.OfColumn) : cause.OfMessage := by
  cases cause <;> trivial

theorem OfBatch.ofMessage {cause : Error} (h : cause.OfBatch) : cause.OfMessage := by
  cases cause <;> trivial

theorem Malformed.ofMessage {cause : Error} (h : cause.Malformed) : cause.OfMessage := by
  obtain ⟨problem, rfl⟩ := h
  trivial

theorem Corrupt.ofMessage {cause : Error} (h : cause.Corrupt) : cause.OfMessage := by
  obtain ⟨problem, rfl⟩ := h
  trivial

end Error

/-! ## Two runs -/

/-- The operations end alike: with the same failure, or with results that are related. -/
def InStep {α β : Type} (rel : α → β → Prop) : Result α → Result β → Prop
  | .ok a, .ok b => rel a b
  | .error e, .error e' => e = e'
  | _, _ => False

namespace InStep

variable {α β γ δ : Type} {rel : α → β → Prop} {x : Result α} {y : Result β}

theorem refl (x : Result α) : InStep Eq x x := by
  cases x <;> rfl

theorem cases (h : InStep rel x y) :
    (∃ e, x = .error e ∧ y = .error e) ∨ ∃ a b, x = .ok a ∧ y = .ok b ∧ rel a b := by
  rcases x with e | a <;> rcases y with e' | b
  · exact .inl ⟨e, rfl, by rw [show e = e' from h]⟩
  · cases h
  · cases h
  · exact .inr ⟨a, b, rfl, rfl, h⟩

/-- What comes second may rely on what both first operations found. -/
theorem bind {rel' : γ → δ → Prop} {f : α → Result γ} {g : β → Result δ} (h : InStep rel x y)
    (next : ∀ a b, x = .ok a → y = .ok b → rel a b → InStep rel' (f a) (g b)) : InStep rel' (x >>= f) (y >>= g) := by
  rcases h.cases with ⟨e, rfl, rfl⟩ | ⟨a, b, rfl, rfl, related⟩
  · rfl
  · exact next a b rfl rfl related

end InStep

/-! ## Verdicts -/

/-- The test ends, and finds out whether `p` holds. -/
def Decides (test : Result Bool) (p : Prop) : Prop := ∃ verdict, test = .ok verdict ∧ (verdict = true ↔ p)

namespace Decides

theorem pure_iff {b : Bool} {p : Prop} (h : b = true ↔ p) : Decides (.ok b) p := ⟨b, rfl, h⟩

theorem congr {test : Result Bool} {p q : Prop} (h : Decides test p) (e : p ↔ q) : Decides test q := by
  obtain ⟨verdict, ran, iff⟩ := h
  exact ⟨verdict, ran, iff.trans e⟩

theorem eq_true {test : Result Bool} {p : Prop} (h : Decides test p) (holds : p) : test = .ok true := by
  obtain ⟨verdict, ran, iff⟩ := h
  rw [ran, iff.2 holds]

/-- A second test that is only made where the first one holds. -/
theorem and {test test' : Result Bool} {p q : Prop} (h : Decides test p) (h' : p → Decides test' q) :
    Decides (test >>= fun b => if b then test' else pure false) (p ∧ q) := by
  obtain ⟨verdict, rfl, iff⟩ := h
  cases verdict with
  | false => exact ⟨false, rfl, by simp [← iff]⟩
  | true =>
    have holds := iff.1 rfl
    obtain ⟨verdict', ran', iff'⟩ := h' holds
    exact ⟨verdict', ran', iff'.trans ⟨fun second => ⟨holds, second⟩, And.right⟩⟩

end Decides

end ColumnStream
