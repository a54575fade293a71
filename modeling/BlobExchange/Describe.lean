import BlobExchange.Exchange.Consumer
import BlobExchange.Exchange.Upkeep
/-! # Descriptions of values by the names of their fields -/

namespace BlobExchange.Describe

def record (name : String) (fields : List (String × String)) : String :=
  name ++ " \x7b " ++ String.intercalate ", " (fields.map fun f => f.1 ++ ": " ++ f.2) ++ " \x7d"

def optional : Option Nat → String
  | none => "None"
  | some n => "Some(" ++ toString n ++ ")"

def identifier (id : BlobId) : String := s!"BlobId({id.raw.toInt})"

def policy (p : GrowthPolicy) : String :=
  record "GrowthPolicy" [
    ("growth_factor", p.factor.text Decimal.Layout.explicit),
    ("max_capacity", optional p.maxCapacity)]

def buffer (b : Buffer) : String :=
  record "GrowableBuffer" [
    ("len", toString b.length), ("capacity", toString b.capacity), ("policy", policy b.policy)]

def settings (s : Settings) : String :=
  record "BlobManagerConfig" [
    ("growth", policy s.growth), ("max_idle_bytes", optional s.idleBudget)]

def statistics (s : Statistics) : String :=
  record "BlobStats" [
    ("active_blobs", toString s.activeBlobs),
    ("cached_entries", toString s.cachedEntries),
    ("idle_bytes", toString s.idleBytes),
    ("cache_hits", toString s.cacheHits),
    ("cache_misses", toString s.cacheMisses),
    ("fresh_allocated_bytes", toString s.freshAllocatedBytes),
    ("disposed_blobs", toString s.disposedBlobs),
    ("reclaimed_buffers", toString s.reclaimedBuffers),
    ("stale_entries_skipped", toString s.staleEntriesSkipped)]

def exchange (x : Exchange) (others : Interference) : String × Exchange :=
  let snapshot := x.snapshot others
  (record "BlobManager" [
    ("config", settings x.settings), ("statistics", statistics snapshot.1)], snapshot.2)

def reclaimer (x : Exchange) : String :=
  record "IdleReclaimer" [("idle_bytes", toString x.pool.idleBytes)]

def producer (p : Producer) : String :=
  record "BlobProducer" [("id", identifier p.id), ("finished", toString p.finished)]

def consumer (c : Consumer) : String :=
  record "BlobConsumer" [
    ("id", identifier c.id), ("position", toString c.cursor.position),
    ("finished", toString c.finished)]

end BlobExchange.Describe
