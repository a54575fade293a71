import BlobExchange.Exchange.Basic
/-! # Claiming and releasing blobs -/

namespace BlobExchange.Exchange

def claim (x : Exchange) (id : BlobId) : Except BlobError Unit × Exchange :=
  match x.registry.claim id with
  | some registry => (.ok (), { x with registry := registry }.note (.retrieved id))
  | none => (.error (.unknownIdentifier id), x.note (.unknown id))

def keepBudget (x : Exchange) : Exchange :=
  match x.settings.idleBudget with
  | none => x
  | some budget =>
    let result := x.pool.reclaimDownTo budget
    let after := { x with pool := result.2 }
    if result.1.buffers = 0 then after else after.note (.overBudget result.1 budget)

def shelve (x : Exchange) (capacity : Nat) (h : Handle) : Exchange :=
  let next := x.shelfIds.next
  { x with shelfIds := next.2, shelf := x.shelf.insert ⟨capacity, next.1⟩ h }

/-- Parks the buffer of a disposed blob and shelves its handle. -/
def dispose (x : Exchange) (id : BlobId) (others : Interference) : Exchange :=
  match x.registry.takeBuffer id with
  | none => x
  | some (b, registry) =>
    let x := { x with registry := registry }.amid others.beforePark
    let parked := x.pool.park b
    let x := { x with pool := parked.2 }.amid others.afterPark
    let x := x.shelve b.capacity parked.1
    let x := { x with counters := x.counters.disposal }
    (x.note (.disposed id b.capacity)).keepBudget

def settle (x : Exchange) (id : BlobId) (release : Release) (others : Interference) : Exchange :=
  match release with
  | .last => x.dispose id others
  | .retained => x.note (.retained id)
  | .absent => x

def endProducer (x : Exchange) (id : BlobId) (others : Interference) : Exchange :=
  let ended := x.registry.endProducer id
  { x with registry := ended.2 }.settle id ended.1 others

def endConsumer (x : Exchange) (id : BlobId) (others : Interference) : Exchange :=
  let ended := x.registry.endConsumer id
  { x with registry := ended.2 }.settle id ended.1 others

end BlobExchange.Exchange
