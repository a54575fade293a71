import BlobExchange.Buffer.Draining
import BlobExchange.Exchange.Producer
/-! # Consumers

A consumer that is dropped without having finished keeps its claim. -/

namespace BlobExchange

structure Consumer where
  id : BlobId
  cursor : Cursor
  finished : Bool
  deriving DecidableEq, Repr

/-- A consumer after draining, the sink, and the count or the failure. -/
structure BlobDrained where
  consumer : Consumer
  sink : Sink
  outcome : Except BlobError Nat

/-- An exchange after a script wrote a whole blob, the producer that it wrote through as it was
left, if the blob was constructed, the script's notes, and the blob's consumer or why there is
none. -/
structure BlobWritten where
  exchange : Exchange
  producer : Option Producer
  notes : List Note
  outcome : Except (Halt BlobError) Consumer

namespace Consumer

def claim (x : Exchange) (id : BlobId) : Except BlobError Consumer × Exchange :=
  match x.claim id with
  | (.ok (), x) => (.ok ⟨id, Cursor.start, false⟩, x)
  | (.error e, x) => (.error e, x)

/-- Claims the blob whose identifier is at the front of a message. Nothing is read from a message
that is too short. -/
def claimFrom (x : Exchange) (message : Message) :
    Except BlobError Consumer × Message × Exchange :=
  match message.readId with
  | .error e => (.error e, message, x)
  | .ok (id, rest) =>
    let claimed := claim x id
    (claimed.1, rest, claimed.2)

/-- Constructs a blob, has a script write it, and gives its one consumer. If the script fails the
blob is finished and the failure given. If the script asks for an oversized allocation, or a callback
breaks off, the producer is dropped as it is. -/
def ofScript (x : Exchange) (size : Nat) (script : List Instruction) (others : Interference) :
    BlobWritten :=
  match Producer.construct x size others with
  | (.error halt, x) => ⟨x, none, [], .error halt⟩
  | (.ok producer, x) =>
    let ran := producer.run x script
    match ran.outcome with
    | .error .overflow => ⟨producer.drop ran.exchange, some producer, ran.notes, .error .overflow⟩
    | .error (.failed e) =>
      let finished := producer.finish ran.exchange others
      ⟨finished.2, some finished.1, ran.notes, .error (.failed e)⟩
    | .ok () =>
      let claimed := claim ran.exchange producer.id
      let finished := producer.finish claimed.2 others
      ⟨finished.2, some finished.1, ran.notes, claimed.1.mapError .failed⟩

/-- The blob's buffer, unless the consumer has finished or the blob is disposed. -/
def access (c : Consumer) (x : Exchange) (operation : Operation) : Except BlobError Buffer :=
  if c.finished then .error (.useAfterFinish c.id operation)
  else x.registry.access c.id operation

def drain (c : Consumer) (x : Exchange) (s : Sink) (limit : Option Nat) : BlobDrained :=
  match c.access x .drain with
  | .error e => ⟨c, s, .error e⟩
  | .ok b =>
    let drained := c.cursor.drain b s limit
    ⟨{ c with cursor := drained.cursor }, drained.sink, drained.outcome.mapError .buffer⟩

def readAll (c : Consumer) (x : Exchange) : Except BlobError Bytes × Consumer :=
  match c.access x .consume with
  | .error e => (.error e, c)
  | .ok b =>
    let read := c.cursor.readAll b
    (.ok read.1, { c with cursor := read.2 })

def ahead (c : Consumer) (x : Exchange) : Except BlobError Nat :=
  (c.access x .length).map c.cursor.ahead

def rewind (c : Consumer) (x : Exchange) : Except BlobError Unit × Consumer :=
  if c.finished || x.registry.isDisposed c.id then (.error (.useAfterFinish c.id .rewind), c)
  else (.ok (), { c with cursor := Cursor.start })

def finish (c : Consumer) (x : Exchange) (others : Interference) : Consumer × Exchange :=
  if c.finished then (c, x)
  else ({ c with finished := true }, x.endConsumer c.id others)

def drop (c : Consumer) (x : Exchange) : Exchange :=
  if c.finished || x.registry.isDisposed c.id then x else x.note (.consumerDropped c.id)

end Consumer

end BlobExchange
