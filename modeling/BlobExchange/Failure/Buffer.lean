import BlobExchange.Failure.Channel
/-! # Failures of buffers

A refusal may have to leave through a channel. Opening undoes one wrapping and only one
(`opened_wrapped`). -/

namespace BlobExchange

/-- A buffer's failure: that of a channel, or the refusal of `requested` bytes of capacity, more
than its `limit`. -/
inductive BufferError where
  | channel (error : ChannelError)
  | capacityExceeded (requested limit : Nat)
  deriving DecidableEq, Repr

namespace BufferError

def message : BufferError → String
  | channel error => error.message
  | capacityExceeded requested limit => refusalMessage requested limit

def code : BufferError → String
  | channel _ => "buffer.io"
  | capacityExceeded _ _ => "buffer.capacity_exceeded"

def wrapped (kind : ErrorKind) : BufferError → ChannelError
  | channel cause => .relayed kind cause
  | capacityExceeded requested limit => .refusal kind requested limit

/-- A buffer's failure handed to a channel: a channel's own failure is handed back as it is, and a
refusal is wrapped. -/
def toChannelError : BufferError → ChannelError
  | channel error => error
  | capacityExceeded requested limit => .refusal .other requested limit

end BufferError

/-- A channel's failure as a buffer's: what lay in its outermost wrapping, or the failure itself if
it wraps nothing. -/
def ChannelError.opened : ChannelError → BufferError
  | refusal _ requested limit => .capacityExceeded requested limit
  | relayed _ cause => .channel cause
  | error => .channel error

@[simp] theorem BufferError.opened_wrapped (kind : ErrorKind) (e : BufferError) :
    (e.wrapped kind).opened = e := by
  cases e <;> rfl

/-! ## Halting -/

/-- Why an operation stopped: it failed, or it overflowed. What overflows is an allocation larger
than any, or a counter that has run out. -/
inductive Halt (ε : Type) where
  | failed (error : ε)
  | overflow
  deriving DecidableEq, Repr

def Halt.map {ε φ : Type} (f : ε → φ) : Halt ε → Halt φ
  | failed error => .failed (f error)
  | overflow => .overflow

def overflowMessage : String := "capacity overflow"

end BlobExchange
