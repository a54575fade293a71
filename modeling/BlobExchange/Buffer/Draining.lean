import BlobExchange.Buffer.Basic
import BlobExchange.Buffer.Sink
/-! # Reading a buffer through a cursor

The cursor moves by what the sink reports, also when a later write fails. -/

namespace BlobExchange

structure Cursor where
  position : Nat
  deriving DecidableEq, Repr

/-- A cursor and a sink after draining, and the count that was moved or the failure. -/
structure Drained where
  cursor : Cursor
  sink : Sink
  outcome : Except BufferError Nat
  deriving Repr

namespace Cursor

def start : Cursor := ⟨0⟩

def ahead (c : Cursor) (b : Buffer) : Nat := b.length - c.position

/-- All bytes ahead, and the cursor behind them. -/
def readAll (c : Cursor) (b : Buffer) : Bytes × Cursor :=
  let chunk := b.bytesFrom c.position
  (chunk, ⟨c.position + chunk.length⟩)

/-- Drains on after `moved` bytes of the target. A write that takes nothing is a failure. -/
def drainOn (c : Cursor) (b : Buffer) (s : Sink) (target moved : Nat) : Drained :=
  if moved < target then
    match s.write ((b.bytesFrom c.position).take (target - moved)) with
    | (.ok 0, rest) => ⟨c, rest, .error (.channel (.bare .writeZero))⟩
    | (.ok (n + 1), rest) => drainOn ⟨c.position + (n + 1)⟩ b rest target (moved + (n + 1))
    | (.error e, rest) => ⟨c, rest, .error (.channel e)⟩
  else ⟨c, s, .ok moved⟩
termination_by target - moved

def drain (c : Cursor) (b : Buffer) (s : Sink) (limit : Option Nat) : Drained :=
  c.drainOn b s (atMost limit (c.ahead b)) 0

end Cursor

end BlobExchange
