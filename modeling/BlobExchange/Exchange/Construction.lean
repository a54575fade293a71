import BlobExchange.Exchange.Basic
/-! # Constructing blobs

The buffer is emptied before the blob is registered. No identifier is used up when the supplier
fails. -/

namespace BlobExchange.Exchange

/-- Takes the best fitting idle buffer of at least a size, if there is one. -/
def takeIdle (x : Exchange) (size : Nat) : Option Buffer × Exchange :=
  let found := x.shelf.pick size Pool.upgrade x.pool
  let skipped := found.1.stale.map fun e => Event.staleSkipped e.2 e.1.capacity
  (found.1.hit.map Hit.value, { x with
    shelf := found.2
    pool := found.1.state
    counters := x.counters.stale found.1.stale.length
    journal := x.journal ++ skipped })

/-- Registers a blob in an emptied buffer. A counter of identifiers that is spent overflows. -/
def issue (x : Exchange) (size : Nat) (b : Buffer) (reused : Bool) :
    Except (Halt BlobError) BlobId × Exchange :=
  if x.blobIds.isSpent then (.error .overflow, x)
  else
    let next := x.blobIds.nextId
    let after := { x with
      blobIds := next.2
      registry := x.registry.register next.1 b.emptied }
    (.ok next.1, after.note (.constructed next.1 size b.capacity reused))

def requestBuffer (x : Exchange) (size : Nat) : Except (Halt BufferError) Buffer × Exchange :=
  (x.supplier.request x.requests size, { x with requests := x.requests ++ [size] })

def construct (x : Exchange) (size : Nat) (others : Interference) :
    Except (Halt BlobError) BlobId × Exchange :=
  match (x.catchUp others).takeIdle size with
  | (some b, x) => { x with counters := x.counters.hit }.issue size b true
  | (none, x) =>
    match x.requestBuffer size with
    | (.error halt, x) => (.error (halt.map .buffer), x)
    | (.ok b, x) => { x with counters := x.counters.miss b.capacity }.issue size b false

end BlobExchange.Exchange
