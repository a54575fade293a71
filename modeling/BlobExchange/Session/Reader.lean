import BlobExchange.Exchange.Consumer
/-! # Readers

A sink may report more than it was offered. What a reader's cursor says of the bytes delivered can
be relied on only while no sink has. -/

namespace BlobExchange

/-- What a client asks of a consumer, apart from ending it. -/
inductive ReadCommand where
  | drain (sink : Sink) (limit : Option Nat)
  | readAll
  | ahead
  | rewind

/-- What a consumer answers. A sink is handed back. -/
inductive ReadReply where
  | drained (sink : Sink) (outcome : Except BlobError Nat)
  | read (outcome : Except BlobError Bytes)
  | count (outcome : Except BlobError Nat)
  | rewound (outcome : Except BlobError Unit)

namespace ReadCommand

def operation : ReadCommand → Operation
  | drain _ _ => .drain
  | readAll => .consume
  | ahead => .length
  | rewind => .rewind

/-- The answer to a command that is refused: the sink comes back as it was. -/
def refused (e : BlobError) : ReadCommand → ReadReply
  | drain sink _ => .drained sink (.error e)
  | readAll => .read (.error e)
  | ahead => .count (.error e)
  | rewind => .rewound (.error e)

end ReadCommand

def ReadReply.failure? : ReadReply → Option BlobError
  | drained _ (.error e) => some e
  | read (.error e) => some e
  | count (.error e) => some e
  | rewound (.error e) => some e
  | _ => none

def Consumer.perform (c : Consumer) (x : Exchange) : ReadCommand → ReadReply × Consumer
  | .drain sink limit =>
    let drained := c.drain x sink limit
    (.drained drained.sink drained.outcome, drained.consumer)
  | .readAll =>
    let read := c.readAll x
    (.read read.1, read.2)
  | .ahead => (.count (c.ahead x), c)
  | .rewind =>
    let rewound := c.rewind x
    (.rewound rewound.1, rewound.2)

/-! ## What was delivered -/

/-- Whether a sink's write reports at most what it is offered. -/
def SinkStep.isFair : SinkStep → Bool
  | .over extra => extra == 0
  | _ => true

/-- Whether the writes that led from a sink to `after` reported at most what they were offered. -/
def Sink.isFairTo (s after : Sink) : Bool :=
  (s.steps.take (s.steps.length - after.steps.length)).all SinkStep.isFair

/-- What has been delivered since the start when a command is answered: a drain adds what its sink
took, a reading what it read, and a rewinding begins anew. -/
def ReadCommand.delivered (log : Bytes) : ReadCommand → ReadReply → Bytes
  | drain sink _, .drained after _ => log ++ after.stored.drop sink.stored.length
  | readAll, .read (.ok bytes) => log ++ bytes
  | rewind, .rewound (.ok ()) => []
  | _, _ => log

/-- Whether what was delivered since the start can be relied on after a command. -/
def ReadCommand.keepsFair (fair : Bool) : ReadCommand → ReadReply → Bool
  | drain sink _, .drained after _ => fair && sink.isFairTo after
  | rewind, .rewound (.ok ()) => true
  | _, _ => fair

/-- A consumer that was given out: whether the client still holds it, what was delivered to it
since it was at the start, and whether all sinks since then were fair. -/
structure Reader where
  consumer : Consumer
  held : Bool
  log : Bytes
  fair : Bool

namespace Reader

def id (r : Reader) : BlobId := r.consumer.id

def isOpen (r : Reader) : Bool := !r.consumer.finished

def ofConsumer (c : Consumer) : Reader := ⟨c, true, [], true⟩

end Reader

end BlobExchange
