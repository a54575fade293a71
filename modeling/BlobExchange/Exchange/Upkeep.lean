import BlobExchange.Exchange.Basic
/-! # Upkeep of an exchange -/

namespace BlobExchange.Exchange

def activeBlobs (x : Exchange) : Nat := x.registry.size

def shelved (x : Exchange) (others : Interference) : Nat × Exchange :=
  let after := x.catchUp others
  (after.shelf.size, after)

/-- Reclaims every idle buffer that has a capacity and gives the number of bytes reclaimed. -/
def shrink (x : Exchange) (others : Interference) : Nat × Exchange :=
  let result := x.pool.reclaimDownTo 0
  let after := ({ x with pool := result.2 }.amid others.afterShrink).catchUp others
  (result.1.bytes, after.note (.shrank result.1))

def statistics (x : Exchange) : Statistics where
  activeBlobs := x.registry.size
  cachedEntries := x.shelf.size
  idleBytes := x.pool.idleBytes
  cacheHits := x.counters.hits
  cacheMisses := x.counters.misses
  freshAllocatedBytes := x.counters.freshBytes
  disposedBlobs := x.counters.disposals
  reclaimedBuffers := x.pool.reclaimedTotal
  staleEntriesSkipped := x.counters.staleSkipped

def snapshot (x : Exchange) (others : Interference) : Statistics × Exchange :=
  let after := x.catchUp others
  (after.statistics, after)

end BlobExchange.Exchange
