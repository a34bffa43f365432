/-
Awaited transfers beside blocking ones. They make the same calls until one is interrupted: there a blocking
transfer goes on, and an awaited one gives up. On a device that is never interrupted both come to the same.
-/
import ColumnStream.Proofs.Transport.Sink
import ColumnStream.Proofs.Transport.Source
import ColumnStream.Transport.Awaiting
import ColumnStream.Transport.Script

namespace ColumnStream

variable {σ : Type} {ready : σ → Prop} {breaks : Prop}

/-! ## Devices that are not interrupted -/

/-- A call made in one of these states is not interrupted, and leaves the device in one of them. -/
structure Device.Uninterrupted [Device σ] (ready : σ → Prop) : Prop where
  keeps : ∀ s position count, ready s → ready (Device.transfer s position count).2
  answers : ∀ s position count, ready s → (Device.transfer s position count).1 ≠ .error .interrupted

/-- A call made in one of these states leaves the device in one of them. It is interrupted only if `breaks`. -/
structure Device.Steady [Device σ] (ready : σ → Prop) (breaks : Prop) : Prop where
  keeps : ∀ s position count, ready s → ready (Device.transfer s position count).2
  interrupted : ∀ s position count, ready s →
    (Device.transfer s position count).1 = .error .interrupted → breaks

theorem Device.Uninterrupted.steady [Device σ] (h : Device.Uninterrupted ready) : Device.Steady ready False :=
  ⟨h.keeps, h.answers⟩

theorem Device.steady_any [Device σ] : Device.Steady (fun _ : σ => True) True :=
  ⟨fun _ _ _ _ => trivial, fun _ _ _ _ _ => trivial⟩

namespace Script

/-- No interruption is planned. -/
def Unbroken (s : Script) : Prop := ∀ p ∈ s.planned, p.incident ≠ .interruption

theorem unbroken_met {p : Planned} {rest : List Planned} (h : ∀ q ∈ p :: rest, q.incident ≠ .interruption) :
    ∀ q ∈ met p rest, q.incident ≠ .interruption := by
  obtain ⟨first, later⟩ := List.forall_mem_cons.1 h
  unfold met
  split
  · exact later
  · exact List.forall_mem_cons.2 ⟨first, later⟩

theorem response_ne {i : Incident} (h : i ≠ .interruption) : i.response ≠ .error .interrupted := by
  cases i with
  | interruption => exact absurd rfl h
  | nothing => exact nofun
  | breakage => exact nofun

theorem uninterrupted : Device.Uninterrupted Unbroken where
  keeps s position count h := by
    simp only [Device.transfer, transfer]
    split
    · exact h
    · rename_i p rest plan
      split
      · exact unbroken_met (plan ▸ h)
      · exact h
  answers s position count h := by
    simp only [Device.transfer, transfer]
    split
    · exact nofun
    · rename_i p rest plan
      split
      · exact response_ne (h p (plan ▸ List.mem_cons_self ..))
      · exact nofun

theorem unbroken_flush {s : Script} (h : s.Unbroken) : Unbroken (Device.flush s).2 := by
  simp only [Device.flush, flush]
  split <;> exact h

end Script

/-! ## An awaited call beside a blocking one -/

/-- An awaited call and a blocking one: they are answered alike and leave states so related, or the awaited one was
interrupted. -/
inductive Alike {τ τ' α : Type} (related : τ → τ' → Prop) (breaks : Prop) : Result α × τ → Result α × τ' → Prop
  | same {answer : Result α} {s : τ} {s' : τ'} : related s s' → Alike related breaks (answer, s) (answer, s')
  | interrupted {s : τ} {blocking : Result α × τ'} : breaks →
      Alike related breaks (fail (.device .interrupted), s) blocking

/-- Two that are begun: alike and so related, or neither; or the awaited one was interrupted. -/
inductive Begun {τ τ' ρ : Type} (related : τ → τ' → Prop) (breaks : Prop) :
    Except (Failure × ρ) τ → Except (Failure × ρ) τ' → Prop
  | same {s : τ} {s' : τ'} : related s s' → Begun related breaks (.ok s) (.ok s')
  | refused (e : Failure × ρ) : Begun related breaks (.error e) (.error e)
  | interrupted {left : ρ} {blocking : Except (Failure × ρ) τ'} : breaks →
      Begun related breaks (.error (.error (.device .interrupted), left)) blocking

/-- Both have come to the same, and its device is in one of these states. -/
def Abreast {τ : Type} (device : τ → σ) (ready : σ → Prop) (s s' : τ) : Prop := s = s' ∧ ready (device s)

namespace Alike

variable {τ τ' α : Type} {related : τ → τ' → Prop} {x : Result α × τ} {y : Result α × τ'}

theorem agree (h : Alike related False x y) : x.1 = y.1 ∧ related x.2 y.2 := by
  cases h with
  | same states => exact ⟨rfl, states⟩
  | interrupted broke => exact broke.elim

theorem cases_answer (h : Alike related breaks x y) : x.1 = y.1 ∨ x.1 = fail (.device .interrupted) := by
  cases h with
  | same => exact .inl rfl
  | interrupted => exact .inr rfl

end Alike

/-- How two calls end that start from the same state. -/
theorem Alike.ends {τ α : Type} {device : τ → σ}
    {motive : (x y : Result α × τ) → Alike (Abreast device ready) breaks x y → Prop}
    (interrupted : ∀ s blocking broke, motive (fail (.device .interrupted), s) blocking (.interrupted broke))
    (refused : ∀ e s (h : ready (device s)), motive (.error e, s) (.error e, s) (.same ⟨rfl, h⟩))
    (answered : ∀ a s (h : ready (device s)), motive (.ok a, s) (.ok a, s) (.same ⟨rfl, h⟩))
    {x y : Result α × τ} (t : Alike (Abreast device ready) breaks x y) : motive x y t := by
  cases t with
  | interrupted broke => exact interrupted _ _ broke
  | @same answer s s' states =>
    obtain ⟨rfl, h⟩ := states
    cases answer with
    | error e => exact refused e s h
    | ok a => exact answered a s h

/-! ## Sinks -/

namespace Sink

variable [Device σ] (steady : Device.Steady ready breaks) {s : Sink σ} (h : ready s.device)
include steady h

theorem offer_steady {s' : Sink σ} {b : Buffer} {start : Nat} {out : Except DeviceError Nat}
    (call : s.offer b start = (out, s')) : ready s'.device ∧ (out = .error .interrupted → breaks) := by
  obtain ⟨device, written, flushes⟩ := s
  have keeps := steady.keeps device written.size (b.size - start) h
  have interrupted := steady.interrupted device written.size (b.size - start) h
  simp only [offer] at call
  split at call <;> rename_i ran <;> rw [ran] at keeps interrupted <;> cases call
  · exact ⟨keeps, interrupted⟩
  · exact ⟨keeps, fun out => by cases out⟩

theorem sendFrom_alike (b : Buffer) (start : Nat) :
    Alike (Abreast Sink.device ready) breaks (s.sendFrom b start) (s.writeFrom b start) := by
  -- Along the blocking loop: until a call is interrupted each turn of one is a turn of the other.
  fun_induction writeFrom s b start with
  | case1 s start done =>
    rw [sendFrom, if_pos done]
    exact .same ⟨rfl, h⟩
  | case2 s start more s' call =>
    rw [sendFrom, if_neg more, call]
    exact .same ⟨rfl, (offer_steady steady h call).1⟩
  | case3 s start more count s' call ih =>
    rw [sendFrom, if_neg more, call]
    exact ih (offer_steady steady h call).1
  | case4 s start more s' call _ =>
    rw [sendFrom, if_neg more, call]
    exact .interrupted ((offer_steady steady h call).2 rfl)
  | case5 s start more cause s' other call =>
    rw [sendFrom, if_neg more, call]
    exact .same ⟨rfl, (offer_steady steady h call).1⟩

theorem sendAll_alike (b : Buffer) : Alike (Abreast Sink.device ready) breaks (s.sendAll b) (s.writeAll b) :=
  sendFrom_alike steady h b 0

end Sink

/-! ## Sources -/

namespace Source

variable [Device σ] (steady : Device.Steady ready breaks) {s : Source σ} (h : ready s.device)
include steady h

theorem ask_steady {s' : Source σ} {count : Nat} {out : Except DeviceError Nat} (call : s.ask count = (out, s')) :
    ready s'.device ∧ (out = .error .interrupted → breaks) := by
  have keeps := steady.keeps s.device s.taken (min count s.remaining) h
  have interrupted := steady.interrupted s.device s.taken (min count s.remaining) h
  simp only [ask] at call
  split at call <;> rename_i ran <;> rw [ran] at keeps interrupted <;> cases call
  · exact ⟨keeps, interrupted⟩
  · exact ⟨keeps, fun out => by cases out⟩

theorem receive_alike (count : Nat) :
    Alike (Abreast Source.device ready) breaks (s.receive count) (s.advance count) := by
  -- Along the blocking loop, as for a sink.
  fun_induction advance s count with
  | case1 s =>
    rw [receive, if_pos rfl]
    exact .same ⟨rfl, h⟩
  | case2 s count more s' call =>
    rw [receive, if_neg more, call]
    exact .same ⟨rfl, (ask_steady steady h call).1⟩
  | case3 s count more moved s' call ih =>
    rw [receive, if_neg more, call]
    exact ih (ask_steady steady h call).1
  | case4 s count more s' call _ =>
    rw [receive, if_neg more, call]
    exact .interrupted ((ask_steady steady h call).2 rfl)
  | case5 s count more cause s' other call =>
    rw [receive, if_neg more, call]
    exact .same ⟨rfl, (ask_steady steady h call).1⟩

theorem receiveBytes_alike (count : Nat) :
    Alike (Abreast Source.device ready) breaks (s.receiveBytes count) (s.fill count) := by
  have advanced := receive_alike steady h count
  unfold receiveBytes fill
  generalize s.receive count = awaited, s.advance count = blocking at advanced
  cases advanced using Alike.ends with
  | interrupted _ _ broke => exact .interrupted broke
  | refused e s₁ ready' => exact .same ⟨rfl, ready'⟩
  | answered u s₁ ready' => exact .same ⟨rfl, ready'⟩

end Source

end ColumnStream
