import BlobExchange.Buffer.Basic
import BlobExchange.Number.BigEndian
/-! # Scripts that write into a buffer

A failure of the buffer leaves a script as a channel's and is opened at its end. -/

namespace BlobExchange

/-- What a script does next: it writes bytes, a single byte or a signed word, all of a run of bytes
or as many as one call takes, tries a write whose failure it ignores, flushes, or fails. -/
inductive Instruction where
  | put (bytes : Bytes)
  | putByte (value : UInt8)
  | putWord (value : Int64)
  | writeAll (bytes : Bytes)
  | writeOnce (bytes : Bytes)
  | tryPut (bytes : Bytes)
  | flush
  | fail (error : ChannelError)
  deriving DecidableEq, Repr

/-- What a completed instruction shows: the length of the content, the number of bytes that one
call took, or the failure that was ignored. -/
inductive Note where
  | written (length : Nat)
  | accepted (count : Nat)
  | ignored (error : BufferError)
  deriving DecidableEq, Repr

/-- A buffer after a script, the notes of the completed instructions, and how the script ended. -/
structure ScriptRun where
  buffer : Buffer
  notes : List Note
  outcome : Except (Halt BufferError) Unit
  deriving Repr

namespace Buffer

/-- Writes bytes for a script, which sees a failure as a channel's. -/
def give (b : Buffer) (bytes : Bytes) : Except (Halt ChannelError) Buffer :=
  match b.append bytes with
  | .ok after => .ok after
  | .error halt => .error (halt.map BufferError.toChannelError)

def giveNoted (b : Buffer) (bytes : Bytes) : Except (Halt ChannelError) (Buffer × Note) :=
  (b.give bytes).map fun after => (after, .written after.length)

def perform (b : Buffer) : Instruction → Except (Halt ChannelError) (Buffer × Note)
  | .put bytes => b.giveNoted bytes
  | .putByte value => b.giveNoted [value]
  | .putWord value => b.giveNoted (BigEndian.ofInt64 value)
  | .writeAll bytes => b.giveNoted bytes
  | .writeOnce bytes => (b.give bytes).map fun after => (after, .accepted bytes.length)
  | .tryPut bytes =>
    match b.append bytes with
    | .ok after => .ok (after, .written after.length)
    | .error (.failed e) => .ok (b, .ignored e)
    | .error .overflow => .error .overflow
  | .flush => .ok (b, .written b.length)
  | .fail e => .error (.failed e)

/-- Runs a script. A callback that breaks off without an answer leaves what the script of its
instructions so far leaves, and a producer that is lost with it is dropped. -/
def run (b : Buffer) : List Instruction → ScriptRun
  | [] => ⟨b, [], .ok ()⟩
  | i :: rest =>
    match b.perform i with
    | .error halt => ⟨b, [], .error (halt.map ChannelError.opened)⟩
    | .ok (after, note) =>
      let later := after.run rest
      { later with notes := note :: later.notes }

end Buffer

end BlobExchange
