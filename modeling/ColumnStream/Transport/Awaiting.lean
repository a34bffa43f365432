/-
Devices that are awaited. A transfer goes on as a blocking one does, call after call, but no call
is made again: an interruption ends the transfer as any other refusal does.
-/
import ColumnStream.Transport.Device

namespace ColumnStream

namespace Sink

variable {σ : Type} [Device σ]

/-- Offers the bytes from `start` on until all are in or a call is refused. A call that takes none
is a failure. -/
def sendFrom (s : Sink σ) (b : Buffer) (start : Nat) : Result Unit × Sink σ :=
  if b.size ≤ start then (.ok (), s)
  else
    match s.offer b start with
    | (.ok 0, s') => (fail (.device .writeZero), s')
    | (.ok (count + 1), s') => sendFrom s' b (start + (count + 1))
    | (.error cause, s') => (fail (.device cause), s')
termination_by b.size - start

def sendAll (s : Sink σ) (b : Buffer) : Result Unit × Sink σ := s.sendFrom b 0

end Sink

namespace Source

variable {σ : Type} [Device σ]

/-- Asks until `count` bytes have come, a call brings none, or a call is refused. -/
def receive (s : Source σ) (count : Nat) : Result Unit × Source σ :=
  if count = 0 then (.ok (), s)
  else
    match s.ask count with
    | (.ok 0, s') => (.ok (), s')
    | (.ok (moved + 1), s') => receive s' (count - (moved + 1))
    | (.error cause, s') => (fail (.device cause), s')
termination_by count

/-- As many of the next `count` bytes as there are. -/
def receiveBytes (s : Source σ) (count : Nat) : Result Buffer × Source σ :=
  match s.receive count with
  | (.error e, s') => (.error e, s')
  | (.ok (), s') => (.ok (s.data.extract s.taken s'.taken), s')

end Source

end ColumnStream
