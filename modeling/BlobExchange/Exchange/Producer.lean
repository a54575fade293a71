import BlobExchange.Buffer.Filling
import BlobExchange.Buffer.Script
import BlobExchange.Exchange.Construction
import BlobExchange.Exchange.Release
/-! # Producers

A producer that is dropped without having finished keeps its claim. -/

namespace BlobExchange

structure Producer where
  id : BlobId
  finished : Bool
  deriving DecidableEq, Repr

/-- An exchange after a blob was filled, the source, and the count or why it stopped. -/
structure BlobFilled where
  exchange : Exchange
  source : Source
  outcome : Except (Halt BlobError) Nat

/-- An exchange after a script ran on a blob, the script's notes, and how it ended. -/
structure BlobRun where
  exchange : Exchange
  notes : List Note
  outcome : Except (Halt BlobError) Unit

def blobOutcome {α : Type} (r : Except (Halt BufferError) α) : Except (Halt BlobError) α :=
  match r with
  | .ok a => .ok a
  | .error halt => .error (halt.map .buffer)

def Exchange.setBuffer (x : Exchange) (id : BlobId) (b : Buffer) : Exchange :=
  { x with registry := x.registry.setBuffer id b }

namespace Producer

def construct (x : Exchange) (size : Nat) (others : Interference) :
    Except (Halt BlobError) Producer × Exchange :=
  match x.construct size others with
  | (.ok id, x) => (.ok ⟨id, false⟩, x)
  | (.error halt, x) => (.error halt, x)

/-- The blob's buffer, unless the producer has finished or the blob is disposed. -/
def access (p : Producer) (x : Exchange) (operation : Operation) : Except BlobError Buffer :=
  if p.finished then .error (.useAfterFinish p.id operation)
  else x.registry.access p.id operation

def fill (p : Producer) (x : Exchange) (s : Source) (budget : Option Nat) : BlobFilled :=
  match p.access x .fill with
  | .error e => ⟨x, s, .error (.failed e)⟩
  | .ok b =>
    let filled := b.fill s budget
    ⟨x.setBuffer p.id filled.buffer, filled.source, blobOutcome filled.outcome⟩

def run (p : Producer) (x : Exchange) (script : List Instruction) : BlobRun :=
  match p.access x .produce with
  | .error e => ⟨x, [], .error (.failed e)⟩
  | .ok b =>
    let ran := b.run script
    ⟨x.setBuffer p.id ran.buffer, ran.notes, blobOutcome ran.outcome⟩

def held (p : Producer) (x : Exchange) : Except BlobError Nat :=
  (p.access x .held).map Buffer.length

def capacity (p : Producer) (x : Exchange) : Except BlobError Nat :=
  (p.access x .capacity).map Buffer.capacity

def fits (p : Producer) (x : Exchange) (additional : Nat) : Except BlobError Bool :=
  (p.access x .accept).map fun b => b.fits additional

def announce (p : Producer) (x : Exchange) (message : Bytes) : Except BlobError Bytes :=
  if p.finished || x.registry.isDisposed p.id then .error (.useAfterFinish p.id .announce)
  else .ok (message ++ p.id.encode)

def finish (p : Producer) (x : Exchange) (others : Interference) : Producer × Exchange :=
  if p.finished then (p, x)
  else ({ p with finished := true }, x.endProducer p.id others)

def drop (p : Producer) (x : Exchange) : Exchange :=
  if p.finished || x.registry.isDisposed p.id then x else x.note (.producerDropped p.id)

end Producer

end BlobExchange
