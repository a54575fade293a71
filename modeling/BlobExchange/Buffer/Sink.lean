import BlobExchange.Buffer.Source
/-! # Sinks -/

namespace BlobExchange

/-- What a sink does with a write: take so many bytes, take all and report more, or fail. -/
inductive SinkStep where
  | take (count : Nat)
  | over (extra : Nat)
  | failure (error : ChannelError)
  deriving DecidableEq, Repr

/-- A scripted sink. When the steps are used up a write takes at most `most` bytes. `stored` holds
what was taken and `offered` the runs of bytes that were offered. -/
structure Sink where
  steps : List SinkStep
  most : Option Nat
  stored : Bytes
  offered : List Bytes
  deriving DecidableEq, Repr

namespace Sink

def ofSteps (steps : List SinkStep) (most : Option Nat) : Sink := ⟨steps, most, [], []⟩

/-- The answer to writes of one run of bytes, repeated while they are interrupted. -/
structure Answer where
  result : Except ChannelError Nat
  taken : Bytes
  writes : Nat
  steps : List SinkStep

def answer (most : Option Nat) (chunk : Bytes) : List SinkStep → Answer
  | [] =>
    let count := atMost most chunk.length
    ⟨.ok count, chunk.take count, 1, []⟩
  | .take n :: rest =>
    let count := min n chunk.length
    ⟨.ok count, chunk.take count, 1, rest⟩
  | .over extra :: rest => ⟨.ok (chunk.length + extra), chunk, 1, rest⟩
  | .failure e :: rest =>
    if e.isInterruption then
      let later := answer most chunk rest
      { later with writes := later.writes + 1 }
    else ⟨.error e, [], 1, rest⟩

/-- Offers bytes and gives the count that the sink reports. A sink that breaks off in a write leaves
the cursor where one does that fails there. -/
def write (chunk : Bytes) (s : Sink) : Except ChannelError Nat × Sink :=
  let got := answer s.most chunk s.steps
  (got.result, { s with
    steps := got.steps
    stored := s.stored ++ got.taken
    offered := s.offered ++ List.replicate got.writes chunk })

end Sink

end BlobExchange
