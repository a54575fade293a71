import BlobExchange.Blob.Id
import BlobExchange.Idle.Pool
/-! # The journal of an exchange -/

namespace BlobExchange

inductive Event where
  | constructed (id : BlobId) (size capacity : Nat) (reused : Bool)
  | retrieved (id : BlobId)
  | unknown (id : BlobId)
  | disposed (id : BlobId) (capacity : Nat)
  | retained (id : BlobId)
  | draining (reports : List Handle)
  | staleSkipped (handle : Handle) (capacity : Nat)
  | idleReclaimed (reclaimed : Reclaimed) (keep : Nat)
  | shrank (reclaimed : Reclaimed)
  | overBudget (reclaimed : Reclaimed) (budget : Nat)
  | producerDropped (id : BlobId)
  | consumerDropped (id : BlobId)
  deriving DecidableEq, Repr

namespace Event

/-- The reports whose fetching an event tells of. -/
def fetched : Event → List Handle
  | draining reports => reports
  | _ => []

/-- The blob whose end an event tells of. -/
def ended : Event → List BlobId
  | disposed id _ => [id]
  | _ => []

def particular (name value : String) : String := " " ++ name ++ "=" ++ value

def reclaimedParticulars (r : Reclaimed) : String :=
  particular "buffers" (toString r.buffers) ++ particular "bytes" (toString r.bytes)

def line : Event → String
  | constructed id size capacity reused =>
    "DEBUG constructed blob" ++ particular "blob_id" id.text
      ++ particular "indicative_size" (toString size) ++ particular "capacity" (toString capacity)
      ++ particular "reused" (toString reused)
  | retrieved id => "DEBUG retrieved blob consumer" ++ particular "blob_id" id.text
  | unknown id => "DEBUG unknown blob identifier" ++ particular "blob_id" id.text
  | disposed id capacity =>
    "DEBUG disposed blob" ++ particular "blob_id" id.text
      ++ particular "capacity" (toString capacity)
  | retained id => "TRACE blob retained by outstanding holders" ++ particular "blob_id" id.text
  | draining reports =>
    "TRACE draining reclaimed blob buffers" ++ particular "count" (toString reports.length)
  | staleSkipped handle capacity =>
    "TRACE skipped stale cache entry" ++ particular "handle" handle.text
      ++ particular "capacity" (toString capacity)
  | idleReclaimed r keep =>
    "DEBUG reclaimed idle blob buffers" ++ reclaimedParticulars r
      ++ particular "max_idle_bytes" (toString keep)
  | shrank r => "DEBUG shrank blob cache" ++ reclaimedParticulars r
  | overBudget r budget =>
    "WARN idle blob buffers exceeded budget, reclaimed oldest" ++ reclaimedParticulars r
      ++ particular "max_idle_bytes" (toString budget)
  | producerDropped id =>
    "WARN blob producer dropped without finish" ++ particular "blob_id" id.text
  | consumerDropped id =>
    "WARN blob consumer dropped without finish" ++ particular "blob_id" id.text

end Event

end BlobExchange
