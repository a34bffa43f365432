/-
What reading from a source brings, whatever its device does: the next bytes, never more than were asked
for. A device that always moves on brings as many as were asked for while there are so many; if it also
answers at the end of the data, it brings all that is left when there are fewer.
-/
import ColumnStream.Proofs.Transport.Sink

namespace ColumnStream

variable {σ : Type}

/-- In each of these states a call at the end of the data is answered or interrupted, and leaves the device in
one of them. -/
def Device.Ending [Device σ] (ready : σ → Prop) : Prop :=
  ∀ s position, ready s → ∃ s', ready s' ∧
    ((∃ n, Device.transfer s position 0 = (.ok n, s')) ∨ Device.transfer s position 0 = (.error .interrupted, s'))

theorem Hesitant.ending : Device.Ending fun _ : Hesitant => True := by
  rintro ⟨hesitates⟩ position -
  cases hesitates with
  | false => exact ⟨⟨true⟩, trivial, .inl ⟨1, rfl⟩⟩
  | true => exact ⟨⟨false⟩, trivial, .inr rfl⟩

namespace Source

/-- The bytes that are still to come. -/
def ahead (s : Source σ) : Bytes := s.rest.toList

theorem ahead_unread (device : σ) (x : Bytes) : (⟨device, x.toArray, 0⟩ : Source σ).ahead = x := by
  simp [ahead, rest]

theorem length_ahead (s : Source σ) : s.ahead.length = s.remaining := by
  simp [ahead, rest, remaining]

variable [Device σ]

/-! ## Any device -/

theorem taken_advance_le (s : Source σ) (count : Nat) : (s.advance count).2.taken ≤ s.taken + count := by
  have step {s s' : Source σ} {count : Nat} {out : Except DeviceError Nat} (call : s.ask count = (out, s')) :
      (∀ n, out = .ok n → s'.taken = s.taken + n ∧ n ≤ count) ∧ (∀ e, out = .error e → s'.taken = s.taken) := by
    simp only [ask] at call
    split at call <;> cases call
    · exact ⟨by rintro n ⟨⟩, fun e h => rfl⟩
    · refine ⟨fun n h => ?_, by rintro e ⟨⟩⟩
      cases h
      exact ⟨rfl, by omega⟩
  fun_induction advance s count with
  | case1 => exact Nat.le_refl _
  | case2 s count more s' call =>
    have := ((step call).1 _ rfl).1
    simp only
    omega
  | case3 s count more moved s' call ih =>
    have := (step call).1 _ rfl
    omega
  | case4 s count more s' call ih =>
    have := (step call).2 _ rfl
    omega
  | case5 s count more cause s' other call =>
    have := (step call).2 _ rfl
    simp only
    omega

theorem fill_ok {s s' : Source σ} {count : Nat} {b : Buffer} (h : s.fill count = (.ok b, s')) :
    s.ahead = b.toList ++ s'.ahead ∧ b.size ≤ count := by
  refine ⟨by rw [ahead, rest_fill_ok h, Array.toList_append, ahead], ?_⟩
  have := taken_advance_le s count
  unfold fill at h
  split at h <;> rename_i call <;> cases h
  rw [call] at this
  simp only [Array.size_extract] at *
  omega

/-! ## Obliging devices -/

theorem ask_obliging {ready : σ → Prop} (obliging : Device.Obliging ready) {s : Source σ} (h : ready s.device)
    {count : Nat} (some : 0 < count) (more : 0 < s.remaining) :
    ∃ s', ready s'.device ∧
      ((∃ n, s.ask count = (.ok (n + 1), s')) ∨ s.ask count = (.error .interrupted, s')) := by
  obtain ⟨device, ready', ⟨n, positive, moved⟩ | interrupted⟩ :=
    obliging.transfer s.device s.taken (min count s.remaining) h (by omega)
  · obtain ⟨k, hk⟩ : ∃ k, min n (min count s.remaining) = k + 1 := ⟨min n (min count s.remaining) - 1, by omega⟩
    refine ⟨{ s with device := device, taken := s.taken + (k + 1) }, ready', .inl ⟨k, ?_⟩⟩
    simp [ask, moved, hk]
  · exact ⟨{ s with device := device }, ready', .inr (by simp [ask, interrupted])⟩

theorem ask_taken {s s' : Source σ} {count moved : Nat} (h : s.ask count = (.ok moved, s')) :
    s'.taken = s.taken + moved ∧ moved ≤ count ∧ moved ≤ s.remaining ∧ s'.remaining = s.remaining - moved := by
  simp only [ask] at h
  split at h <;> cases h
  refine ⟨rfl, by omega, by omega, ?_⟩
  simp only [remaining]
  omega

theorem advance_obliging {ready : σ → Prop} (obliging : Device.Obliging ready) (s : Source σ) (count : Nat)
    (h : ready s.device) (enough : count ≤ s.remaining) :
    ∃ s', ready s'.device ∧ s.advance count = (.ok (), s') ∧ s'.taken = s.taken + count := by
  fun_induction advance s count with
  | case1 s => exact ⟨s, h, rfl, rfl⟩
  | case2 s count more s' call =>
    rcases ask_obliging obliging h (Nat.pos_of_ne_zero more) (by omega) with ⟨_, _, ⟨n, other⟩ | other⟩ <;>
      simp [other] at call
  | case3 s count more moved s' call ih =>
    obtain ⟨s'', ready', other⟩ := ask_obliging obliging h (Nat.pos_of_ne_zero more) (by omega)
    have same : s'' = s' := by
      rcases other with ⟨n, other⟩ | other <;> rw [call] at other <;> cases other
      rfl
    have := ask_taken call
    obtain ⟨last, ready'', ran, taken⟩ := ih (same ▸ ready') (by omega)
    exact ⟨last, ready'', ran, by omega⟩
  | case4 s count more s' call ih =>
    obtain ⟨s'', ready', other⟩ := ask_obliging obliging h (Nat.pos_of_ne_zero more) (by omega)
    have same : s'' = s' := by
      rcases other with ⟨n, other⟩ | other <;> rw [call] at other <;> cases other
      rfl
    have kept : s'.taken = s.taken ∧ s'.remaining = s.remaining := by
      simp only [ask] at call
      split at call <;> cases call
      exact ⟨rfl, rfl⟩
    obtain ⟨last, ready'', ran, taken⟩ := ih (same ▸ ready') (by omega)
    exact ⟨last, ready'', ran, by omega⟩
  | case5 s count more cause s' other call =>
    rcases ask_obliging obliging h (Nat.pos_of_ne_zero more) (by omega) with ⟨_, _, ⟨n, moved⟩ | interrupted⟩
    · rw [call] at moved
      cases moved
    · rw [call] at interrupted
      cases interrupted
      exact (other rfl).elim

/-- The next bytes are read whole while they are there. -/
theorem fill_obliging {ready : σ → Prop} (obliging : Device.Obliging ready) {s : Source σ} (h : ready s.device)
    {x y : Bytes} (next : s.ahead = x ++ y) :
    ∃ s', ready s'.device ∧ s.fill x.length = (.ok x.toArray, s') ∧ s'.ahead = y ∧
      s'.taken = s.taken + x.length := by
  have enough : x.length ≤ s.remaining := by
    rw [← length_ahead, next, List.length_append]
    omega
  obtain ⟨s', ready', ran, taken⟩ := advance_obliging obliging s x.length h enough
  have filled : s.fill x.length = (.ok (s.data.extract s.taken s'.taken), s') := by rw [fill, ran]
  obtain ⟨split, -⟩ := fill_ok filled
  rw [next] at split
  have length : (s.data.extract s.taken s'.taken).toList.length = x.length := by
    rw [Array.length_toList, Array.size_extract]
    unfold remaining at enough
    omega
  -- As many bytes were taken as `x` has, so they are `x`.
  obtain ⟨same, rest⟩ := List.append_inj split length.symm
  refine ⟨s', ready', ?_, rest.symm, taken⟩
  rw [filled, same]

/-! ## The end of the data -/

/-- A call that asks for something brings something, unless nothing is left. -/
theorem ask_ending {ready : σ → Prop} (obliging : Device.Obliging ready) (ending : Device.Ending ready)
    {s s' : Source σ} (h : ready s.device) {count : Nat} (some : 0 < count) {out : Except DeviceError Nat}
    (call : s.ask count = (out, s')) :
    ready s'.device ∧ (out = .error .interrupted ∨ ∃ n, out = .ok n ∧ (n = 0 → s.remaining = 0)) := by
  by_cases more : 0 < s.remaining
  · obtain ⟨s'', ready', ⟨n, moved⟩ | interrupted⟩ := ask_obliging obliging h some more
    · cases call.symm.trans moved
      exact ⟨ready', .inr ⟨n + 1, rfl, by omega⟩⟩
    · cases call.symm.trans interrupted
      exact ⟨ready', .inl rfl⟩
  · have none : min count s.remaining = 0 := by omega
    obtain ⟨device, ready', ⟨n, answered⟩ | interrupted⟩ := ending s.device s.taken h
    · simp only [ask, none, answered] at call
      cases call
      exact ⟨ready', .inr ⟨_, rfl, fun _ => by omega⟩⟩
    · simp only [ask, none, interrupted] at call
      cases call
      exact ⟨ready', .inl rfl⟩

theorem advance_ending {ready : σ → Prop} (obliging : Device.Obliging ready) (ending : Device.Ending ready)
    (s : Source σ) (count : Nat) (h : ready s.device) (fewer : s.remaining < count) :
    ∃ s', ready s'.device ∧ s.advance count = (.ok (), s') ∧ s'.remaining = 0 := by
  fun_induction advance s count with
  | case1 s => omega
  | case2 s count more s' call =>
    obtain ⟨ready', other | ⟨n, moved, last⟩⟩ := ask_ending obliging ending h (Nat.pos_of_ne_zero more) call
    · cases other
    · cases moved
      have := last rfl
      have := (ask_taken call).2.2.2
      exact ⟨s', ready', rfl, by omega⟩
  | case3 s count more moved s' call ih =>
    obtain ⟨ready', -⟩ := ask_ending obliging ending h (Nat.pos_of_ne_zero more) call
    have := ask_taken call
    exact ih ready' (by omega)
  | case4 s count more s' call ih =>
    obtain ⟨ready', -⟩ := ask_ending obliging ending h (Nat.pos_of_ne_zero more) call
    have kept : s'.remaining = s.remaining := by
      simp only [ask] at call
      split at call <;> cases call
      rfl
    exact ih ready' (kept ▸ fewer)
  | case5 s count more cause s' other call =>
    obtain ⟨-, interrupted | ⟨n, moved, -⟩⟩ := ask_ending obliging ending h (Nat.pos_of_ne_zero more) call
    · cases interrupted
      exact (other rfl).elim
    · cases moved

/-- All that is left is read if more is asked for. -/
theorem fill_ending {ready : σ → Prop} (obliging : Device.Obliging ready) (ending : Device.Ending ready)
    {s : Source σ} (h : ready s.device) {count : Nat} (fewer : s.ahead.length < count) :
    ∃ s', ready s'.device ∧ s.fill count = (.ok s.ahead.toArray, s') ∧ s'.ahead = [] := by
  rw [length_ahead] at fewer
  obtain ⟨s', ready', ran, none⟩ := advance_ending obliging ending s count h fewer
  have filled : s.fill count = (.ok (s.data.extract s.taken s'.taken), s') := by rw [fill, ran]
  obtain ⟨split, -⟩ := fill_ok filled
  have empty : s'.ahead = [] := by rw [← List.length_eq_zero_iff, length_ahead, none]
  rw [empty, List.append_nil] at split
  exact ⟨s', ready', by rw [filled, split], empty⟩

end Source

end ColumnStream
