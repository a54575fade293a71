import BlobExchange.Exchange.Producer
/-! # Writers

What was appended is read off what the client sees. The buffer has no say in it. -/

namespace BlobExchange

/-- What a client asks of a producer, apart from ending it. -/
inductive WriteCommand where
  | fill (source : Source) (budget : Option Nat)
  | run (script : List Instruction)
  | held
  | capacity
  | fits (additional : Nat)
  | announce (message : Bytes)

/-- What a producer answers. A source and a message are handed back. -/
inductive WriteReply where
  | filled (source : Source) (outcome : Except (Halt BlobError) Nat)
  | ran (notes : List Note) (outcome : Except (Halt BlobError) Unit)
  | count (outcome : Except BlobError Nat)
  | verdict (outcome : Except BlobError Bool)
  | announced (message : Bytes) (outcome : Except BlobError Unit)

namespace WriteCommand

def operation : WriteCommand → Operation
  | fill _ _ => .fill
  | run _ => .produce
  | held => .held
  | capacity => .capacity
  | fits _ => .accept
  | announce _ => .announce

/-- The answer to a command that is refused: the source and the message come back as they were. -/
def refused (e : BlobError) : WriteCommand → WriteReply
  | fill source _ => .filled source (.error (.failed e))
  | run _ => .ran [] (.error (.failed e))
  | held => .count (.error e)
  | capacity => .count (.error e)
  | fits _ => .verdict (.error e)
  | announce message => .announced message (.error e)

end WriteCommand

def WriteReply.failure? : WriteReply → Option BlobError
  | filled _ (.error (.failed e)) => some e
  | ran _ (.error (.failed e)) => some e
  | count (.error e) => some e
  | verdict (.error e) => some e
  | announced _ (.error e) => some e
  | _ => none

def Producer.perform (p : Producer) (x : Exchange) : WriteCommand → WriteReply × Exchange
  | .fill source budget =>
    let filled := p.fill x source budget
    (.filled filled.source filled.outcome, filled.exchange)
  | .run script =>
    let ran := p.run x script
    (.ran ran.notes ran.outcome, ran.exchange)
  | .held => (.count (p.held x), x)
  | .capacity => (.count (p.capacity x), x)
  | .fits additional => (.verdict (p.fits x additional), x)
  | .announce message =>
    match p.announce x message with
    | .ok after => (.announced after (.ok ()), x)
    | .error e => (.announced message (.error e), x)

/-! ## What was appended -/

/-- The bytes that a completed instruction appended, by its note. -/
def Instruction.appended : Instruction → Note → Bytes
  | put bytes, _ => bytes
  | putByte value, _ => [value]
  | putWord value, _ => BigEndian.ofInt64 value
  | writeAll bytes, _ => bytes
  | writeOnce bytes, .accepted count => bytes.take count
  | tryPut bytes, .written _ => bytes
  | _, _ => []

/-- The bytes that a script appended, by the notes of its completed instructions. -/
def scriptAppended (script : List Instruction) (notes : List Note) : Bytes :=
  (List.zipWith Instruction.appended script notes).flatten

/-- The bytes that a filling appended: what the source gave, but for the byte that showed that it
had more than the limit permits. -/
def fillAppended {α : Type} (before after : Source) : Except (Halt BlobError) α → Bytes
  | .error (.failed (.buffer (.capacityExceeded _ _))) => (before.spent after).dropLast
  | _ => before.spent after

/-- The bytes that a command appended, by its answer. -/
def WriteCommand.appended : WriteCommand → WriteReply → Bytes
  | fill source _, .filled after outcome => fillAppended source after outcome
  | run script, .ran notes _ => scriptAppended script notes
  | _, _ => []

/-- A producer that was given out: whether the client still holds it, and what was appended
through it. -/
structure Writer where
  producer : Producer
  held : Bool
  log : Bytes

namespace Writer

def id (w : Writer) : BlobId := w.producer.id

def isOpen (w : Writer) : Bool := !w.producer.finished

end Writer

end BlobExchange
