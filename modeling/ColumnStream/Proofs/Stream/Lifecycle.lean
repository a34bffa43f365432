/-
The states of a writer. What is kept by every turn is kept by every run, so a writer gives its sink up just when it
finishes without leaving it open, and counts just the batches that it accepted; once it has finished it stays as it
is, its device too.
-/
import ColumnStream.Proofs.Stream.Writer
import ColumnStream.Transport.Script

namespace ColumnStream

variable {σ : Type}

/-! ## Counting calls -/

/-- A device that counts the calls it gets, those it refuses too. -/
structure Tally (σ : Type) where
  device : σ
  calls : Nat := 0
  deriving DecidableEq, Repr

instance [Device σ] : Device (Tally σ) where
  transfer t position count :=
    let (out, device) := Device.transfer t.device position count
    (out, ⟨device, t.calls + 1⟩)
  flush t :=
    let (out, device) := Device.flush t.device
    (out, ⟨device, t.calls + 1⟩)
  patience t := Device.patience t.device
  patience_lt := by
    intro t t' position count h
    obtain ⟨out, rfl⟩ := Prod.mk.inj h
    exact Device.patience_lt _ _ position count (Prod.ext out rfl)

namespace Writer

variable [Device σ]

/-! ## What every turn keeps -/

/-- The writer holds its sink unless it has finished and was not to leave it open, and it has counted the batches
that the log says were accepted. -/
structure Keeps (leaves : Bool) (log : List Event) (w : Writer σ) : Prop where
  leaveOpen : w.leaveOpen = leaves
  holdsSink : w.holdsSink = (!w.finished || leaves)
  batchesWritten : w.batchesWritten = (acknowledged log).length

namespace Keeps

variable {leaves : Bool} {log : List Event} {w : Writer σ}

omit [Device σ] in
theorem steady (h : Keeps leaves log w) : w.Steady := by
  intro going
  rw [h.holdsSink, going]
  rfl

omit [Device σ] in
theorem sink?_eq_none_iff (h : Keeps leaves log w) : w.sink? = none ↔ w.finished = true ∧ leaves = false := by
  rw [sink?, h.holdsSink]
  cases w.finished <;> cases leaves <;> simp

theorem step (h : Keeps leaves log w) {e : Event} {w' : Writer σ} (step : Step w e w') :
    Keeps leaves (log ++ [e]) w' := by
  have turned := turn h.steady e.call
  rw [step.call] at turned
  have grown : (acknowledged (log ++ [e])).length = (acknowledged log).length + (acknowledged [e]).length := by
    rw [acknowledged_append, List.length_append]
  rw [← h.batchesWritten] at grown
  obtain ⟨c, result, due, sent⟩ := e
  cases turned with
  | refused _ _ => exact ⟨h.leaveOpen, h.holdsSink, grown.symm⟩
  | broken _ _ _ _ => exact ⟨h.leaveOpen, h.holdsSink, grown.symm⟩
  | wrote _ _ => exact ⟨h.leaveOpen, h.holdsSink, grown.symm⟩
  | idle _ => exact ⟨h.leaveOpen, h.holdsSink, grown.symm⟩
  | unended _ _ _ => exact ⟨h.leaveOpen, h.holdsSink, grown.symm⟩
  | ended _ _ => exact ⟨h.leaveOpen, h.leaveOpen, grown.symm⟩

theorem run (h : Keeps leaves log w) {log' : List Event} {w' : Writer σ} (ran : Run w log' w') :
    Keeps leaves (log ++ log') w' := by
  induction ran generalizing log with
  | nil => rwa [List.append_nil]
  | @cons w w₁ w' e log' step _ ih =>
    rw [List.append_cons]
    exact ih (h.step step)

theorem of_start {schema : Schema} {sink : Sink σ} (started : start schema sink leaves = .ok w) :
    Keeps leaves [] w := by
  unfold start at started
  split at started
  · cases started
  · split at started <;> cases started
    exact ⟨rfl, rfl, rfl⟩

end Keeps

/-! ## A writer that has finished -/

/-- Nothing that is done with the writer changes it, and nothing is done to its sink. -/
structure Settled (w : Writer σ) : Prop where
  writeBatch : ∀ b, w.writeBatch b = (fail .writerClosed, w)
  finish : w.finish = (.ok (), w)
  close : ∀ ending, w.close ending = w.sink
  run : ∀ {log w'}, Run w log w' → w' = w

theorem settled {w : Writer σ} (finished : w.finished = true) : w.Settled where
  writeBatch := writeBatch_of_finished finished
  finish := finish_of_finished finished
  close := close_of_finished finished
  run ran := ran.eq_of_finished finished

/-! ## Taking the sink back -/

/-- The sink is handed back as finishing leaves it, unless that fails or the sink was given up before. -/
theorem intoSink_eq {leaves : Bool} {log : List Event} {w : Writer σ} (h : Keeps leaves log w) :
    w.intoSink = match w.finish with
      | (.error e, w') => .error (e, w'.drop)
      | (.ok (), w') =>
        if w.finished = true ∧ leaves = false then .error (.error .writerClosed, w'.sink) else .ok w'.sink := by
  rcases active_or_finished h.steady with active | finished
  · have active' : ({ w with leaveOpen := true } : Writer σ).Active := ⟨active.finished, active.holdsSink⟩
    have going : ¬ (w.finished = true ∧ leaves = false) := fun closed => by simp [active.finished] at closed
    rw [intoSink, if_neg (by simp [active.finished]), finish_of_active active, finish_of_active active']
    simp only
    rcases w.sink.writeEnd with ⟨e | n, sink⟩
    · simp only
      rw [drop_withLeaveOpen { w with sink }]
    · rcases flushed : sink.flush with ⟨e | ⟨⟩, sink'⟩
      · simp only [flushed]
        rw [drop_withLeaveOpen { w with sink := sink' }]
      · simp only [flushed]
        exact (if_pos trivial).trans (if_neg going).symm
  · have settled := settled finished
    rw [intoSink, if_pos finished, settled.finish]
    simp only [h.holdsSink, finished]
    cases leaves with
    | true => rfl
    | false => exact congrArg (fun sink => Except.error (_, sink)) (settled.close .dropped)

theorem intoSink_ok_iff {leaves : Bool} {log : List Event} {w : Writer σ} (h : Keeps leaves log w) :
    (∃ given, w.intoSink = .ok given) ↔ w.finish.1 = .ok () ∧ (w.finished = true → w.sink? ≠ none) := by
  rw [intoSink_eq h, Ne, h.sink?_eq_none_iff]
  rcases w.finish with ⟨e | ⟨⟩, w'⟩
  · simp
  · by_cases closed : w.finished = true ∧ leaves = false
    · simp [closed]
    · simp only [if_neg closed]
      simp [closed]

/-! ## The whole life -/

/-- A batch that is refused, and not for the device, leaves no trace. -/
theorem writeBatch_refused {w : Writer σ} (steady : w.Steady) {b : Batch} {cause : Error}
    (refused : (w.writeBatch b).1 = fail cause) (own : ∀ e, cause ≠ .device e) : (w.writeBatch b).2 = w := by
  have turned := turn_write steady b
  generalize w.writeBatch b = out at refused turned
  cases turned with
  | refused _ _ => rfl
  | broken _ _ _ _ =>
    cases refused
    exact absurd rfl (own _)
  | wrote _ _ => cases refused

theorem exists_run {w : Writer σ} (steady : w.Steady) (calls : List Call) :
    ∃ log w', log.map (·.call) = calls ∧ Run w log w' := by
  induction calls generalizing w with
  | nil => exact ⟨[], w, rfl, .nil w⟩
  | cons c calls ih =>
    obtain ⟨e, w₁, rfl, step⟩ := exists_step w steady c
    obtain ⟨log, w', rfl, ran⟩ := ih ((step.effect steady).steady steady)
    exact ⟨e :: log, w', rfl, .cons step ran⟩

/-- Whatever the sink does, any calls can be made of a writer. After them it has given its sink up just if it has
finished and was not to leave it open, it has counted the batches that it accepted, and once it has finished it stays
as it is. Its sink can be taken back just if it is still there and finishing succeeds, now or before; and a batch that
is refused leaves everything as it was. -/
theorem lifecycle {schema : Schema} {sink : Sink σ} {leaveOpen : Bool} {w : Writer σ}
    (started : start schema sink leaveOpen = .ok w) :
    (∀ calls : List Call, ∃ log w', log.map (·.call) = calls ∧ Run w log w') ∧
    ∀ log w', Run w log w' →
      (w'.sink? = none ↔ w'.finished = true ∧ leaveOpen = false) ∧
      w'.batchesWritten = (acknowledged log).length ∧
      (w'.finished = true → w'.Settled) ∧
      ((∃ given, w'.intoSink = .ok given) ↔ w'.finish.1 = .ok () ∧ (w'.finished = true → w'.sink? ≠ none)) ∧
      (∀ given, w'.intoSink = .ok given → given = w'.finish.2.sink) ∧
      ∀ b cause, (w'.writeBatch b).1 = fail cause → (∀ e, cause ≠ .device e) → (w'.writeBatch b).2 = w' := by
  have begins := Keeps.of_start started
  refine ⟨exists_run begins.steady, fun log w' ran => ?_⟩
  have keeps : Keeps leaveOpen log w' := begins.run ran
  refine ⟨keeps.sink?_eq_none_iff, keeps.batchesWritten, settled, intoSink_ok_iff keeps,
    fun given taken => ?_, fun b cause => writeBatch_refused keeps.steady⟩
  rw [intoSink_eq keeps] at taken
  split at taken
  · cases taken
  · rename_i w₁ ended
    split at taken <;> cases taken
    rw [ended]

theorem Run.eq_foldl {w w' : Writer σ} {log : List Event} (h : Run w log w') :
    w' = (log.map (·.call)).foldl (fun w c => (w.call c).2) w := by
  induction h with
  | nil => rfl
  | cons step _ ih => rw [ih, List.map_cons, List.foldl_cons, step.call]

/-! ### A sink that counts -/

/-- An empty sink that takes eight bytes a call, fails its first flush, and counts the calls. -/
def tallied : Sink (Tally Script) := ⟨⟨{ chunk := some 8, failingFlushes := 1 }, 0⟩, #[], 0⟩

/-- A row without columns. -/
def bareRow : Batch := ⟨⟨[]⟩, 1, []⟩

/-- Three calls for each of the two messages, two for each end marker with its flush, and none after that. -/
theorem lifecycle_tallied : ∃ w log w', start ⟨[]⟩ tallied = .ok w ∧ Run w log w' ∧
    log.map (·.call) = [.write bareRow, .finish, .finish] ∧ w'.sink? = none ∧ w'.batchesWritten = 1 ∧
    w'.sink.device.calls = 10 ∧ ∀ log' w'', Run w' log' w'' → w''.sink.device.calls = 10 := by
  obtain ⟨w, started, finished, calls, counted⟩ : ∃ w, start ⟨[]⟩ tallied = .ok w ∧
      ([.write bareRow, .finish, .finish].foldl (fun w c => (Writer.call w c).2) w).finished = true ∧
      ([.write bareRow, .finish, .finish].foldl (fun w c => (Writer.call w c).2) w).sink.device.calls = 10 ∧
      ([.write bareRow, .finish, .finish].foldl (fun w c => (Writer.call w c).2) w).batchesWritten = 1 :=
    ⟨_, by cbv, by cbv, by cbv, by cbv⟩
  obtain ⟨exists_run, runs⟩ := lifecycle started
  obtain ⟨log, w', made, ran⟩ := exists_run [.write bareRow, .finish, .finish]
  have after := ran.eq_foldl
  rw [made] at after
  rw [← after] at finished calls counted
  obtain ⟨gone, -, settled, -⟩ := runs log w' ran
  refine ⟨w, log, w', started, ran, made, gone.2 ⟨finished, rfl⟩, counted, calls, fun log' w'' ran' => ?_⟩
  rw [(settled finished).run ran', calls]

end Writer

end ColumnStream
