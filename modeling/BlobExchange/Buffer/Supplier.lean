import BlobExchange.Buffer.Basic
/-! # Suppliers of buffers -/

namespace BlobExchange

structure Supplier where
  request : (earlier : List Nat) → (size : Nat) → Except (Halt BufferError) Buffer

/-- An empty buffer of exactly the size, if the policy permits it. -/
def GrowthPolicy.newBuffer (p : GrowthPolicy) (size : Nat) : Except (Halt BufferError) Buffer :=
  if p.limit < size then .error (.failed (.capacityExceeded size p.limit))
  else Buffer.create size p

namespace Supplier

def exact (p : GrowthPolicy) : Supplier := ⟨fun _ size => p.newBuffer size⟩

/-- Gives whole units, at least one. -/
def rounding (unit : Nat) (p : GrowthPolicy) : Supplier :=
  ⟨fun _ size => p.newBuffer (min (max 1 (Binary64.ceilDiv size unit) * unit) Size.largest)⟩

/-- Gives one capacity, whatever is asked for. -/
def fixed (capacity : Nat) (p : GrowthPolicy) : Supplier := ⟨fun _ _ => p.newBuffer capacity⟩

/-- Gives what is asked for, with bytes left in it. -/
def prefilled (bytes : Bytes) (p : GrowthPolicy) : Supplier :=
  ⟨fun _ size =>
    match p.newBuffer size with
    | .ok b => b.append bytes
    | .error halt => .error halt⟩

/-- Gives what is asked for so many times, and fails from then on. -/
def failingAfter (count : Nat) (error : BufferError) (p : GrowthPolicy) : Supplier :=
  ⟨fun earlier size =>
    if earlier.length < count then p.newBuffer size else .error (.failed error)⟩

end Supplier

end BlobExchange
