import BlobExchange.Blob.Registry
import BlobExchange.Buffer.Supplier
import BlobExchange.Exchange.Journal
import BlobExchange.Exchange.Statistics
import BlobExchange.Idle.Shelf
/-! # The blob exchange

Buffers are reclaimed from the pool behind the shelf's back, so before each look at the shelf the
exchange catches up with the reports. -/

namespace BlobExchange

/-- What others do to the pool: reclaim down to so many idle bytes, reclaim one buffer and withhold
the report, or deliver a report that was withheld. -/
inductive Reclamation where
  | downTo (keep : Nat)
  | silently (handle : Handle)
  | deliver (handle : Handle)
  deriving DecidableEq, Repr

/-- The handles whose buffers a reclamation gives up, in order. -/
def Pool.casualties (p : Pool) : Reclamation → List Handle
  | .downTo keep => (p.reclaimDownTo keep).2.reports.drop p.reports.length
  | .silently h => if p.isLive h then [h] else []
  | .deliver _ => []

/-- What others do within an operation: after reports were fetched, before and after a buffer is
parked, and after everything was reclaimed. At any other moment they do what they would at one of
these or after the operation, because in between it leaves the pool alone or only tries handles
(`Exchange.takeIdle_amid`). -/
structure Interference where
  afterFetch : (reports : List Handle) → List Reclamation
  beforePark : List Reclamation
  afterPark : List Reclamation
  afterShrink : List Reclamation

namespace Interference

def absent : Interference := ⟨fun _ => [], [], [], []⟩

/-- Someone reclaims down to so many idle bytes when reports were fetched. -/
def striking (keep : Nat) : Interference :=
  ⟨fun reports => if reports.isEmpty then [] else [.downTo keep], [], [], []⟩

end Interference

/-- The state of an exchange. `requests` lists the sizes asked of the supplier and `journal` the
events, both in order. `strikes` has an entry for each moment at which others could strike: the
handles whose buffers they reclaimed. `orphan` is a reported handle that the shelf did not know;
once there is one, shelf and pool have come apart. -/
structure Exchange where
  settings : Settings
  supplier : Supplier
  requests : List Nat
  registry : Registry
  shelf : Shelf
  pool : Pool
  blobIds : Sequence
  shelfIds : Sequence
  counters : Counters
  journal : List Event
  strikes : List (List Handle)
  orphan : Option Handle

namespace Exchange

def assemble (settings : Settings) (supplier : Supplier) : Exchange where
  settings := settings
  supplier := supplier
  requests := []
  registry := Registry.empty
  shelf := Shelf.empty
  pool := Pool.empty
  blobIds := Sequence.start
  shelfIds := Sequence.start
  counters := Counters.zero
  journal := []
  strikes := []
  orphan := none

def withSupplier (settings : Settings) (supplier : Supplier) : Except BlobError Exchange :=
  match settings.fault? with
  | some fault => .error (.invalidSettings fault)
  | none => .ok (assemble settings supplier)

def new (settings : Settings) : Except BlobError Exchange :=
  withSupplier settings (Supplier.exact settings.growth)

def standard : Exchange := assemble Settings.standard (Supplier.exact Settings.standard.growth)

def note (x : Exchange) (e : Event) : Exchange := { x with journal := x.journal ++ [e] }

/-- All reports that were fetched, in order. -/
def fetched (x : Exchange) : List Handle := x.journal.flatMap Event.fetched

/-- All blobs that were disposed, in order. -/
def ended (x : Exchange) : List BlobId := x.journal.flatMap Event.ended

/-! ## Reclamation -/

/-- Reclaims idle buffers, the longest parked first, down to so many idle bytes. -/
def reclaimIdle (x : Exchange) (keep : Nat) : Reclaimed × Exchange :=
  let result := x.pool.reclaimDownTo keep
  let after := { x with pool := result.2 }
  (result.1, if result.1.buffers = 0 then after else after.note (.idleReclaimed result.1 keep))

def suffer (x : Exchange) : Reclamation → Exchange
  | .downTo keep => (x.reclaimIdle keep).2
  | .silently h =>
    match x.pool.reclaimSilently h with
    | some (_, pool) => { x with pool := pool }
    | none => x
  | .deliver h => { x with pool := x.pool.deliver h }

def sufferAll (x : Exchange) (deeds : List Reclamation) : Exchange := deeds.foldl suffer x

/-- The handles whose buffers are reclaimed by one thing after the other. -/
def casualties (x : Exchange) : List Reclamation → List Handle
  | [] => []
  | deed :: rest => x.pool.casualties deed ++ (x.suffer deed).casualties rest

/-- A moment at which others strike. -/
def amid (x : Exchange) (deeds : List Reclamation) : Exchange :=
  let after := x.sufferAll deeds
  { after with strikes := after.strikes ++ [x.casualties deeds] }

/-! ## Catching up -/

/-- Takes reported handles off the shelf, up to one that it does not know. -/
def acknowledge (x : Exchange) : List Handle → Exchange
  | [] => x
  | h :: rest =>
    match x.shelf.acknowledge h with
    | some shelf => acknowledge { x with shelf := shelf } rest
    | none => { x with orphan := some h }

def fetch (x : Exchange) : List Handle × Exchange :=
  let fetched := x.pool.fetch
  let after := { x with pool := fetched.2 }
  (fetched.1, if fetched.1.isEmpty then after else after.note (.draining fetched.1))

/-- Fetches the reports, after which others may strike. -/
def fetchAmid (x : Exchange) (others : Interference) : List Handle × Exchange :=
  let fetched := x.fetch
  (fetched.1, fetched.2.amid (others.afterFetch fetched.1))

/-- Fetches the reports and takes the reported handles off the shelf. -/
def catchUp (x : Exchange) (others : Interference) : Exchange :=
  let fetched := x.fetchAmid others
  fetched.2.acknowledge fetched.1

end Exchange

end BlobExchange
