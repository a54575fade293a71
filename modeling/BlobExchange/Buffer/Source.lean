import BlobExchange.Failure.Channel
/-! # Sources

Interrupted reads are made again by `Source.read`, so that its caller sees data, the end or a
lasting failure. -/

namespace BlobExchange

/-- What a source has in store for its reads. Data lasts until it is used up; the end and a
failure are answered once. -/
inductive SourceStep where
  | data (bytes : Bytes)
  | ended
  | failure (error : ChannelError)
  deriving DecidableEq, Repr

/-- A scripted source. A read gives at most `chunk` bytes, and `asked` lists the windows of the
reads so far. Behind the last step the source has ended for good. -/
structure Source where
  steps : List SourceStep
  chunk : Option Nat
  asked : List Nat
  deriving DecidableEq, Repr

/-- A number held at an optional bound. -/
def atMost (bound : Option Nat) (n : Nat) : Nat :=
  match bound with
  | none => n
  | some m => min m n

theorem atMost_le (bound : Option Nat) (n : Nat) : atMost bound n ≤ n := by
  unfold atMost
  split
  · exact Nat.le_refl n
  · exact Nat.min_le_right _ n

def SourceStep.left : SourceStep → Nat
  | data bytes => bytes.length
  | ended => 0
  | failure _ => 0

def SourceStep.bytes : SourceStep → Bytes
  | data bytes => bytes
  | ended => []
  | failure _ => []

namespace Source

def ofSteps (steps : List SourceStep) (chunk : Option Nat) : Source := ⟨steps, chunk, []⟩

def bytesLeft (steps : List SourceStep) : Nat :=
  steps.foldr (fun step count => step.left + count) 0

def left (s : Source) : Nat := bytesLeft s.steps

def data (s : Source) : Bytes := (s.steps.map SourceStep.bytes).flatten

/-- The bytes that are no longer in the source when `after` is left of it. -/
def spent (s after : Source) : Bytes := s.data.take (s.left - after.left)

/-- The answer to reads of at most so many bytes, repeated while they are interrupted. -/
structure Answer where
  result : Except ChannelError Bytes
  reads : Nat
  steps : List SourceStep

/-- Reads along the steps. Data that is used up is passed over. -/
def answer (most : Nat) : List SourceStep → Answer
  | [] => ⟨.ok [], 1, []⟩
  | .data [] :: rest => answer most rest
  | .data (b :: bs) :: rest =>
    ⟨.ok ((b :: bs).take most), 1, .data ((b :: bs).drop most) :: rest⟩
  | .ended :: rest => ⟨.ok [], 1, rest⟩
  | .failure e :: rest =>
    if e.isInterruption then
      let later := answer most rest
      { later with reads := later.reads + 1 }
    else ⟨.error e, 1, rest⟩

/-- Asks for at most `window` bytes. No bytes mean that the source has ended, or that none were
asked for. A source that breaks off in a read leaves the window in the buffer, as one does that
fills it and whose budget is spent with it. -/
def read (window : Nat) (s : Source) : Except ChannelError Bytes × Source :=
  let got := answer (atMost s.chunk window) s.steps
  (got.result, { s with
    steps := got.steps
    asked := s.asked ++ List.replicate got.reads window })

theorem bytesLeft_cons (step : SourceStep) (steps : List SourceStep) :
    bytesLeft (step :: steps) = step.left + bytesLeft steps :=
  rfl

theorem bytesLeft_answer {most : Nat} {steps : List SourceStep} {bytes : Bytes}
    (h : (answer most steps).result = .ok bytes) :
    bytesLeft steps = bytes.length + bytesLeft (answer most steps).steps := by
  fun_induction answer most steps with
  | case1 => cases h; rfl
  | case2 rest ih => rw [bytesLeft_cons, ih h]; simp [SourceStep.left]
  | case3 b bs rest =>
    cases h
    simp only [bytesLeft_cons, SourceStep.left, List.length_take, List.length_drop]
    omega
  | case4 rest => cases h; simp [bytesLeft_cons, SourceStep.left]
  | case5 e rest _ later ih =>
    rw [bytesLeft_cons, ih h]
    simp [SourceStep.left, later]
  | case6 => cases h

/-- The bytes that a read gives are no longer in the source. -/
theorem left_read {window : Nat} {s : Source} {bytes : Bytes}
    (h : (s.read window).1 = .ok bytes) :
    s.left = bytes.length + (s.read window).2.left :=
  bytesLeft_answer h

end Source

end BlobExchange
