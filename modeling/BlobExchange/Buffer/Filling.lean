import BlobExchange.Buffer.Basic
import BlobExchange.Buffer.Source
/-! # Filling a buffer from a source

At the limit one more byte is asked for, to tell a source that has just ended from one that has
more. In the second case the byte is lost. -/

namespace BlobExchange

def largestWindow : Nat := 64 * 1024

/-- A buffer and its source after filling, and the number of bytes added or why it stopped. -/
structure Filled where
  buffer : Buffer
  source : Source
  outcome : Except (Halt BufferError) Nat
  deriving Repr

namespace Buffer

/-- Asks a source for one byte that the buffer cannot hold, after `moved` bytes that it could. -/
def probe (b : Buffer) (s : Source) (moved : Nat) : Filled :=
  match s.read 1 with
  | (.ok [], rest) => ⟨b, rest, .ok moved⟩
  | (.ok (_ :: _), rest) =>
    ⟨b, rest, .error (.failed (.capacityExceeded (Size.addHeld b.length 1) b.policy.limit))⟩
  | (.error e, rest) => ⟨b, rest, .error (.failed (.channel e))⟩

/-- How many bytes the next read asks for: what can be written without growing, within the budget,
the limit and the largest window. -/
def window (b : Buffer) (budget : Option Nat) : Nat :=
  min (atMost budget b.room) (min (b.policy.limit - b.length) largestWindow)

/-- Fills on after `moved` bytes, with the budget that is left. -/
def fillOn (b : Buffer) (s : Source) (budget : Option Nat) (moved : Nat) : Filled :=
  if budget = some 0 then ⟨b, s, .ok moved⟩
  else if b.fits 1 then
    match if b.room = 0 then b.makeRoom 1 else .ok b with
    | .error halt => ⟨b, s, .error halt⟩
    | .ok grown =>
      match _answered : s.read (grown.window budget) with
      | (.ok [], rest) => ⟨grown, rest, .ok moved⟩
      | (.ok (x :: xs), rest) =>
        fillOn (grown.put (x :: xs)) rest (budget.map (· - (x :: xs).length))
          (moved + (x :: xs).length)
      | (.error e, rest) => ⟨grown, rest, .error (.failed (.channel e))⟩
  else b.probe s moved
termination_by s.left
decreasing_by
  have shorter := Source.left_read (congrArg Prod.fst _answered)
  rw [_answered] at shorter
  simp only [List.length_cons] at shorter
  omega

def fill (b : Buffer) (s : Source) (budget : Option Nat) : Filled :=
  b.fillOn s budget 0

end Buffer

end BlobExchange
