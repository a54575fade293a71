import BlobExchange.Size
/-! # Counters and snapshots -/

namespace BlobExchange

structure Counters where
  hits : Nat
  misses : Nat
  freshBytes : Nat
  disposals : Nat
  staleSkipped : Nat
  deriving DecidableEq, Repr

namespace Counters

def zero : Counters := ⟨0, 0, 0, 0, 0⟩

def hit (c : Counters) : Counters := { c with hits := c.hits + 1 }

def miss (c : Counters) (capacity : Nat) : Counters :=
  { c with misses := c.misses + 1, freshBytes := c.freshBytes + capacity }

def disposal (c : Counters) : Counters := { c with disposals := c.disposals + 1 }

def stale (c : Counters) (count : Nat) : Counters :=
  { c with staleSkipped := c.staleSkipped + count }

end Counters

structure Statistics where
  activeBlobs : Nat
  cachedEntries : Nat
  idleBytes : Nat
  cacheHits : Nat
  cacheMisses : Nat
  freshAllocatedBytes : Nat
  disposedBlobs : Nat
  reclaimedBuffers : Nat
  staleEntriesSkipped : Nat
  deriving DecidableEq, Repr

end BlobExchange
