/-
A device that behaves as it is told: it moves a limited number of bytes a call, meets faults at
given positions, and fails its first flushes. While a fault is ahead, a call stops short at its
position; a call made right there meets it, as often as the fault says. Past a fault that was never
met, nothing moves any more.
-/
import ColumnStream.Transport.Device

namespace ColumnStream

inductive Incident
  | interruption | nothing | breakage
  deriving DecidableEq, Repr

def Incident.response : Incident → Except DeviceError Nat
  | interruption => .error .interrupted
  | nothing => .ok 0
  | breakage => .error .brokenPipe

structure Planned where
  position : Nat
  incident : Incident
  times : Nat := 1
  deriving DecidableEq, Repr

structure Script where
  /-- The most bytes a call moves. -/
  chunk : Option Nat := none
  planned : List Planned := []
  failingFlushes : Nat := 0
  deriving DecidableEq, Repr

namespace Script

/-- The plan after its first incident was met once. -/
def met (p : Planned) (rest : List Planned) : List Planned :=
  if p.times ≤ 1 then rest else { p with times := p.times - 1 } :: rest

/-- How many of `count` bytes a call may move. -/
def share (s : Script) (count : Nat) : Nat := min count (s.chunk.getD count)

def transfer (s : Script) (position count : Nat) : Except DeviceError Nat × Script :=
  match s.planned with
  | [] => (.ok (s.share count), s)
  | p :: rest =>
    if position = p.position then (p.incident.response, { s with planned := met p rest })
    else (.ok (s.share (min count (p.position - position))), s)

def flush (s : Script) : Except DeviceError Unit × Script :=
  match s.failingFlushes with
  | 0 => (.ok (), s)
  | n + 1 => (.error .other, { s with failingFlushes := n })

/-- Incidents in a plan, each with its repetitions. -/
def ahead : List Planned → Nat
  | [] => 0
  | p :: rest => p.times + 1 + ahead rest

theorem ahead_met (p : Planned) (rest : List Planned) : ahead (met p rest) < ahead (p :: rest) := by
  unfold met
  split <;> simp only [ahead] <;> omega

def patience (s : Script) : Nat := ahead s.planned

theorem patience_lt (s s' : Script) (position count : Nat)
    (h : s.transfer position count = (.error .interrupted, s')) : s'.patience < s.patience := by
  unfold transfer at h
  split at h
  · cases h
  · rename_i p rest plan
    split at h
    · obtain ⟨_, rfl⟩ := Prod.mk.inj h
      unfold patience
      rw [plan]
      exact ahead_met p rest
    · cases h

instance : Device Script := ⟨transfer, flush, patience, patience_lt⟩

end Script

end ColumnStream
