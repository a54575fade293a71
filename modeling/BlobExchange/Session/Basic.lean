import BlobExchange.Exchange.Upkeep
import BlobExchange.Session.Reader
import BlobExchange.Session.Writer
/-! # Sessions

A session is an exchange with every handle that it has given out. A handle that was dropped stays
in its place, with the claim it had, but answers no more. -/

namespace BlobExchange

/-- What clients ask of an exchange or of a handle, and what others do between two such
requests. -/
inductive Command where
  | construct (size : Nat)
  | write (size : Nat) (script : List Instruction)
  | claim (id : BlobId)
  | claimFrom (message : Message)
  | toWriter (place : Nat) (command : WriteCommand)
  | finishWriter (place : Nat)
  | dropWriter (place : Nat)
  | toReader (place : Nat) (command : ReadCommand)
  | finishReader (place : Nat)
  | dropReader (place : Nat)
  | activeBlobs
  | shelved
  | statistics
  | shrink
  | reclaim (keep : Nat)
  | meanwhile (deeds : List Reclamation)

inductive Reply where
  | constructed (outcome : Except (Halt BlobError) BlobId)
  | written (notes : List Note) (outcome : Except (Halt BlobError) BlobId)
  | claimed (outcome : Except BlobError BlobId)
  | claimedFrom (rest : Message) (outcome : Except BlobError BlobId)
  | ofWriter (reply : WriteReply)
  | ofReader (reply : ReadReply)
  | activeBlobs (count : Nat)
  | shelved (count : Nat)
  | statistics (snapshot : Statistics)
  | shrunk (bytes : Nat)
  | reclaimed (result : Reclaimed)
  | done
  | noHandle

/-- A request of a client and what others do while it is carried out. -/
structure Move where
  command : Command
  others : Interference

structure Session where
  exchange : Exchange
  writers : List Writer
  readers : List Reader

namespace Session

def start (settings : Settings) (supplier : Supplier) : Session :=
  ⟨Exchange.assemble settings supplier, [], []⟩

/-- The writer at a place, if a client holds it. -/
def writer? (s : Session) (place : Nat) : Option Writer :=
  match s.writers[place]? with
  | some w => if w.held then some w else none
  | none => none

/-- The reader at a place, if a client holds it. -/
def reader? (s : Session) (place : Nat) : Option Reader :=
  match s.readers[place]? with
  | some r => if r.held then some r else none
  | none => none

def welcome (s : Session) (x : Exchange) {ε : Type} (claimed : Except ε Consumer) :
    Except ε BlobId × Session :=
  match claimed with
  | .ok c => (.ok c.id, { s with exchange := x, readers := s.readers ++ [Reader.ofConsumer c] })
  | .error e => (.error e, { s with exchange := x })

def construct (s : Session) (size : Nat) (others : Interference) : Reply × Session :=
  match Producer.construct s.exchange size others with
  | (.ok p, x) =>
    (.constructed (.ok p.id), { s with exchange := x, writers := s.writers ++ [⟨p, true, []⟩] })
  | (.error halt, x) => (.constructed (.error halt), { s with exchange := x })

/-- Has a script write a whole blob and hands out its consumer. No client holds the producer. -/
def write (s : Session) (size : Nat) (script : List Instruction) (others : Interference) :
    Reply × Session :=
  let written := Consumer.ofScript s.exchange size script others
  let log := scriptAppended script written.notes
  let writers := s.writers ++ (written.producer.toList.map fun p => ⟨p, false, log⟩)
  let welcomed := { s with writers := writers }.welcome written.exchange written.outcome
  (.written written.notes welcomed.1, welcomed.2)

def toWriter (s : Session) (place : Nat) (command : WriteCommand) : Reply × Session :=
  match s.writer? place with
  | none => (.noHandle, s)
  | some w =>
    let performed := w.producer.perform s.exchange command
    let after := { w with log := w.log ++ command.appended performed.1 }
    (.ofWriter performed.1,
      { s with exchange := performed.2, writers := s.writers.set place after })

def toReader (s : Session) (place : Nat) (command : ReadCommand) : Reply × Session :=
  match s.reader? place with
  | none => (.noHandle, s)
  | some r =>
    let performed := r.consumer.perform s.exchange command
    let after := { r with
      consumer := performed.2
      log := command.delivered r.log performed.1
      fair := command.keepsFair r.fair performed.1 }
    (.ofReader performed.1, { s with readers := s.readers.set place after })

def finishWriter (s : Session) (place : Nat) (others : Interference) : Reply × Session :=
  match s.writer? place with
  | none => (.noHandle, s)
  | some w =>
    let finished := w.producer.finish s.exchange others
    (.done, { s with
      exchange := finished.2
      writers := s.writers.set place { w with producer := finished.1 } })

def finishReader (s : Session) (place : Nat) (others : Interference) : Reply × Session :=
  match s.reader? place with
  | none => (.noHandle, s)
  | some r =>
    let finished := r.consumer.finish s.exchange others
    (.done, { s with
      exchange := finished.2
      readers := s.readers.set place { r with consumer := finished.1 } })

def dropWriter (s : Session) (place : Nat) : Reply × Session :=
  match s.writer? place with
  | none => (.noHandle, s)
  | some w =>
    (.done, { s with
      exchange := w.producer.drop s.exchange
      writers := s.writers.set place { w with held := false } })

def dropReader (s : Session) (place : Nat) : Reply × Session :=
  match s.reader? place with
  | none => (.noHandle, s)
  | some r =>
    (.done, { s with
      exchange := r.consumer.drop s.exchange
      readers := s.readers.set place { r with held := false } })

def step (s : Session) (others : Interference) : Command → Reply × Session
  | .construct size => s.construct size others
  | .write size script => s.write size script others
  | .claim id =>
    let claimed := Consumer.claim s.exchange id
    let welcomed := s.welcome claimed.2 claimed.1
    (.claimed welcomed.1, welcomed.2)
  | .claimFrom message =>
    let claimed := Consumer.claimFrom s.exchange message
    let welcomed := s.welcome claimed.2.2 claimed.1
    (.claimedFrom claimed.2.1 welcomed.1, welcomed.2)
  | .toWriter place command => s.toWriter place command
  | .finishWriter place => s.finishWriter place others
  | .dropWriter place => s.dropWriter place
  | .toReader place command => s.toReader place command
  | .finishReader place => s.finishReader place others
  | .dropReader place => s.dropReader place
  | .activeBlobs => (.activeBlobs s.exchange.activeBlobs, s)
  | .shelved =>
    let shelved := s.exchange.shelved others
    (.shelved shelved.1, { s with exchange := shelved.2 })
  | .statistics =>
    let snapshot := s.exchange.snapshot others
    (.statistics snapshot.1, { s with exchange := snapshot.2 })
  | .shrink =>
    let shrunk := s.exchange.shrink others
    (.shrunk shrunk.1, { s with exchange := shrunk.2 })
  | .reclaim keep =>
    let reclaimed := s.exchange.reclaimIdle keep
    (.reclaimed reclaimed.1, { s with exchange := reclaimed.2 })
  | .meanwhile deeds => (.done, { s with exchange := s.exchange.amid deeds })

def move (s : Session) (m : Move) : Session := (s.step m.others m.command).2

def run (s : Session) (moves : List Move) : Session := moves.foldl move s

/-- What holds at the start and is kept by every move holds after every run. -/
theorem run_induction {P : Session → Prop} {s : Session} (first : P s)
    (kept : ∀ s m, P s → P (s.move m)) (moves : List Move) : P (s.run moves) := by
  induction moves generalizing s with
  | nil => exact first
  | cons m rest ih => exact ih (kept s m first)

end Session

end BlobExchange
