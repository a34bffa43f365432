/-
What a sink holds after a write, whatever its device does. Either all the bytes are in, or the device
failed and a first part of them is; there is no third outcome. On a device that always moves on, all of
them are in.
-/
import ColumnStream.Transport.Device
import ColumnStream.Proofs.Result
import Mathlib.Tactic

namespace ColumnStream

variable {σ : Type}

/-- In each of these states a call moves some of the bytes it is asked to move or is interrupted, and
leaves the device in one of them. -/
structure Device.Obliging [Device σ] (ready : σ → Prop) : Prop where
  transfer : ∀ s position count, ready s → 0 < count → ∃ s', ready s' ∧
    ((∃ n, 0 < n ∧ Device.transfer s position count = (.ok n, s')) ∨
      Device.transfer s position count = (.error .interrupted, s'))

/-- In each of these states a flush succeeds, and leaves the device in one of them. -/
def Device.Flushing [Device σ] (ready : σ → Prop) : Prop :=
  ∀ s, ready s → ∃ s', ready s' ∧ Device.flush s = (.ok (), s')

/-! ## A slow device -/

/-- A device that moves one byte a call, and is interrupted before each of them. -/
structure Hesitant where
  hesitates : Bool

instance : Device Hesitant where
  transfer s _ _ := if s.hesitates then (.error .interrupted, ⟨false⟩) else (.ok 1, ⟨true⟩)
  flush s := (.ok (), s)
  patience s := if s.hesitates then 1 else 0
  patience_lt := by
    rintro ⟨hesitates⟩ s' position count h
    cases hesitates <;> cases h
    decide

theorem Direct.obliging : Device.Obliging fun _ : Direct => True :=
  ⟨fun s _ count _ some => ⟨s, trivial, .inl ⟨count, some, rfl⟩⟩⟩

theorem Hesitant.obliging : Device.Obliging fun _ : Hesitant => True := by
  constructor
  rintro ⟨hesitates⟩ position count - -
  cases hesitates with
  | false => exact ⟨⟨true⟩, trivial, .inl ⟨1, by decide, rfl⟩⟩
  | true => exact ⟨⟨false⟩, trivial, .inr rfl⟩

theorem Hesitant.flushing : Device.Flushing fun _ : Hesitant => True := fun s _ => ⟨s, trivial, rfl⟩

namespace Sink

/-- The bytes that are in the sink. -/
def content (s : Sink σ) : Bytes := s.written.toList

/-- What putting bytes into a sink can come to. -/
inductive Puts {α : Type} (s : Sink σ) (bytes : Bytes) : Result α × Sink σ → Prop
  | all {s' : Sink σ} (a : α) : s'.content = s.content ++ bytes → Puts s bytes (.ok a, s')
  | torn {s' : Sink σ} {sent missing : Bytes} (cause : DeviceError) : bytes = sent ++ missing → missing ≠ [] →
      s'.content = s.content ++ sent → Puts s bytes (fail (.device cause), s')

namespace Puts

variable {α β : Type} {s s' : Sink σ} {x y : Bytes}

theorem content_eq {a : α} (h : Puts s x (.ok a, s')) : s'.content = s.content ++ x := by
  cases h
  assumption

theorem trans {out : Result α × Sink σ} (h : s'.content = s.content ++ x) (h' : Puts s' y out) :
    Puts s (x ++ y) out := by
  cases h' with
  | all a content => exact .all a (by rw [content, h, List.append_assoc])
  | torn cause split some content =>
    exact .torn cause (by rw [split, List.append_assoc]) some (by rw [content, h, List.append_assoc])

theorem torn_append {e : Failure} (h : Puts s x ((.error e, s') : Result α × Sink σ)) (y : Bytes) :
    Puts s (x ++ y) ((.error e, s') : Result β × Sink σ) := by
  cases h with
  | torn cause split some content =>
    exact .torn cause (by rw [split, List.append_assoc]) (by simp [some]) content

end Puts

variable [Device σ]

/-! ## One call -/

theorem offer_ok {s s' : Sink σ} {b : Buffer} {start moved : Nat} (h : s.offer b start = (.ok moved, s')) :
    s'.content = s.content ++ (b.toList.drop start).take moved := by
  unfold offer at h
  split at h
  split at h
  · cases h
  · cases h
    rw [content, content, Array.toList_append, Buffer.toList_extract_add]

theorem offer_error {s s' : Sink σ} {b : Buffer} {start : Nat} {cause : DeviceError}
    (h : s.offer b start = (.error cause, s')) : s'.content = s.content := by
  unfold offer at h
  split at h
  split at h <;> cases h
  rfl

theorem offer_obliging {ready : σ → Prop} (obliging : Device.Obliging ready) {s : Sink σ} (h : ready s.device)
    {b : Buffer} {start : Nat} (more : start < b.size) :
    ∃ s', ready s'.device ∧
      ((∃ n, s.offer b start = (.ok (n + 1), s')) ∨ s.offer b start = (.error .interrupted, s')) := by
  obtain ⟨device, written, flushes⟩ := s
  obtain ⟨device', ready', ⟨n, some, moved⟩ | interrupted⟩ :=
    obliging.transfer device written.size (b.size - start) h (by omega)
  · obtain ⟨k, hk⟩ : ∃ k, min n (b.size - start) = k + 1 := ⟨min n (b.size - start) - 1, by omega⟩
    refine ⟨⟨device', written ++ b.extract start (start + (k + 1)), flushes⟩, ready', .inl ⟨k, ?_⟩⟩
    simp [offer, moved, hk]
  · exact ⟨⟨device', written, flushes⟩, ready', .inr (by simp [offer, interrupted])⟩

/-! ## Whole writes -/

theorem writeFrom_puts (s : Sink σ) (b : Buffer) (start : Nat) :
    Puts s (b.toList.drop start) (s.writeFrom b start) := by
  -- Along the loop: what was moved is in the sink, and the hypothesis is about what is left.
  fun_induction writeFrom s b start with
  | case1 s start past =>
    have none : b.toList.drop start = [] := List.drop_eq_nil_of_le (by simpa using past)
    exact .all () (by rw [none, List.append_nil])
  | case2 s start more s' call =>
    have content := offer_ok call
    rw [List.take_zero] at content
    refine .torn .writeZero (List.nil_append _).symm ?_ content
    intro none
    have := List.drop_eq_nil_iff.1 none
    simp only [Array.length_toList] at this
    omega
  | case3 s start more count s' call ih =>
    have parts : b.toList.drop start =
        (b.toList.drop start).take (count + 1) ++ b.toList.drop (start + (count + 1)) := by
      rw [← List.drop_drop, List.take_append_drop]
    rw [parts]
    exact ih.trans (offer_ok call)
  | case4 s start more s' call ih =>
    exact ih.trans (show s'.content = s.content ++ [] by rw [offer_error call, List.append_nil])
  | case5 s start more cause s' other call =>
    refine .torn cause (List.nil_append _).symm ?_ (by rw [offer_error call, List.append_nil])
    intro none
    have := List.drop_eq_nil_iff.1 none
    simp only [Array.length_toList] at this
    omega

theorem writeFrom_obliging {ready : σ → Prop} (obliging : Device.Obliging ready) (s : Sink σ) (b : Buffer)
    (start : Nat) (h : ready s.device) : ∃ s', ready s'.device ∧ s.writeFrom b start = (.ok (), s') := by
  fun_induction writeFrom s b start with
  | case1 s start past => exact ⟨s, h, rfl⟩
  | case2 s start more s' call =>
    rcases offer_obliging obliging h (b := b) (Nat.not_le.1 more) with ⟨_, _, ⟨n, other⟩ | other⟩ <;>
      simp [other] at call
  | case3 s start more count s' call ih =>
    obtain ⟨s'', ready', other⟩ := offer_obliging obliging h (b := b) (Nat.not_le.1 more)
    have same : s'' = s' := by
      rcases other with ⟨n, other⟩ | other <;> rw [call] at other <;> cases other
      rfl
    exact ih (same ▸ ready')
  | case4 s start more s' call ih =>
    obtain ⟨s'', ready', other⟩ := offer_obliging obliging h (b := b) (Nat.not_le.1 more)
    have same : s'' = s' := by
      rcases other with ⟨n, other⟩ | other <;> rw [call] at other <;> cases other
      rfl
    exact ih (same ▸ ready')
  | case5 s start more cause s' other call =>
    rcases offer_obliging obliging h (b := b) (Nat.not_le.1 more) with ⟨_, _, ⟨n, moved⟩ | interrupted⟩
    · rw [call] at moved
      cases moved
    · rw [call] at interrupted
      cases interrupted
      exact absurd rfl other

theorem writeAll_puts (s : Sink σ) (b : Buffer) : Puts s b.toList (s.writeAll b) := writeFrom_puts s b 0

theorem writeParts_puts (s : Sink σ) (parts : List Buffer) :
    Puts s (parts.flatMap Array.toList) (s.writeParts parts) := by
  induction parts generalizing s with
  | nil => exact .all () (List.append_nil _).symm
  | cons part parts ih =>
    have first := s.writeAll_puts part
    rw [List.flatMap_cons, writeParts]
    split
    · rename_i call
      rw [call] at first
      exact first.torn_append _
    · rename_i call
      rw [call] at first
      exact (ih _).trans first.content_eq

theorem writeParts_obliging {ready : σ → Prop} (obliging : Device.Obliging ready) (s : Sink σ) (parts : List Buffer)
    (h : ready s.device) : ∃ s', ready s'.device ∧ s.writeParts parts = (.ok (), s') := by
  induction parts generalizing s with
  | nil => exact ⟨s, h, rfl⟩
  | cons part parts ih =>
    obtain ⟨s', ready', ran⟩ := writeFrom_obliging obliging s part 0 h
    obtain ⟨s'', ready'', rest⟩ := ih s' ready'
    exact ⟨s'', ready'', by rw [writeParts, writeAll, ran]; exact rest⟩

/-! ## Flushes -/

theorem content_flush (s : Sink σ) : s.flush.2.content = s.content := by
  unfold flush
  split <;> rfl

theorem flush_cases (s : Sink σ) :
    (∃ s', s.flush = (.ok (), s')) ∨ ∃ cause s', s.flush = (fail (.device cause), s') := by
  unfold flush
  split
  · exact .inr ⟨_, _, rfl⟩
  · exact .inl ⟨_, rfl⟩

theorem flush_eq_ok {ready : σ → Prop} (flushing : Device.Flushing ready) (s : Sink σ) (h : ready s.device) :
    ∃ s', ready s'.device ∧ s'.content = s.content ∧ s.flush = (.ok (), s') := by
  obtain ⟨device, ready', ran⟩ := flushing s.device h
  exact ⟨{ s with device := device, flushes := s.flushes + 1 }, ready', rfl, by rw [flush, ran]⟩

end Sink

end ColumnStream
