import BlobExchange.Buffer.Basic
/-! # The pool of idle buffers

Every release moves a slot on to its next generation, so a handle that was used opens nothing. The
queue may hold handles that are no longer live; they are passed over. -/

namespace BlobExchange

/-- A claim to one idle buffer: a slot and the generation in which it was parked there. -/
@[ext]
structure Handle where
  index : Nat
  generation : Nat
  deriving DecidableEq, Repr

def Handle.text (h : Handle) : String := s!"slot#{h.index}@{h.generation}"

/-- A place for a buffer. The generation counts the buffers that have left it. -/
structure Slot where
  generation : Nat
  buffer : Option Buffer
  deriving DecidableEq, Repr

/-- How many buffers were reclaimed, and their capacities in sum. -/
structure Reclaimed where
  buffers : Nat
  bytes : Nat
  deriving DecidableEq, Repr

/-- Idle buffers. Of the empty slots listed in `free` the one emptied last is used first. `order`
holds the handles in order of parking, `reports` those of reclaimed buffers that nobody has
fetched, `withheld` those whose report is still to be delivered. -/
structure Pool where
  slots : List Slot
  free : List Nat
  order : List Handle
  reports : List Handle
  withheld : List Handle
  idleBytes : Nat
  idleBuffers : Nat
  reclaimedTotal : Nat
  deriving DecidableEq, Repr

namespace Pool

def empty : Pool := ⟨[], [], [], [], [], 0, 0, 0⟩

/-- The buffer that a handle claims, if it is still there. -/
def claimed? (p : Pool) (h : Handle) : Option Buffer :=
  match p.slots[h.index]? with
  | some slot => if slot.generation = h.generation then slot.buffer else none
  | none => none

def isLive (p : Pool) (h : Handle) : Bool := (p.claimed? h).isSome

/-- The slot for the next buffer and its generation: the slot emptied last, or a new one. -/
def vacancy (p : Pool) : Handle :=
  match p.free with
  | i :: _ => ⟨i, (p.slots[i]?.map Slot.generation).getD 0⟩
  | [] => ⟨p.slots.length, 0⟩

def place (p : Pool) (b : Buffer) : Pool :=
  match p.free with
  | i :: rest =>
    { p with slots := p.slots.set i ⟨p.vacancy.generation, some b⟩, free := rest }
  | [] => { p with slots := p.slots ++ [⟨0, some b⟩] }

/-- Sweeps dead handles out of the queue when it has grown to more than twice the live ones and
sixteen. -/
def sweep (p : Pool) : Pool :=
  if p.order.length ≤ 2 * p.idleBuffers + 16 then p
  else { p with order := p.order.filter p.isLive }

def park (p : Pool) (b : Buffer) : Handle × Pool :=
  let h := p.vacancy
  let placed := p.place b
  (h, sweep { placed with
    order := placed.order ++ [h]
    idleBytes := placed.idleBytes + b.capacity
    idleBuffers := placed.idleBuffers + 1 })

/-- Hands a buffer out to the handle that claims it, and empties its slot. -/
def take (p : Pool) (h : Handle) : Option (Buffer × Pool) :=
  match p.claimed? h with
  | none => none
  | some b =>
    some (b, { p with
      slots := p.slots.set h.index ⟨h.generation + 1, none⟩
      free := h.index :: p.free
      idleBytes := p.idleBytes - b.capacity
      idleBuffers := p.idleBuffers - 1 })

def reclaim (p : Pool) (h : Handle) : Option (Nat × Pool) :=
  match p.take h with
  | none => none
  | some (b, rest) =>
    some (b.capacity, { rest with
      reports := rest.reports ++ [h]
      reclaimedTotal := rest.reclaimedTotal + 1 })

/-- Gives one buffer up and withholds the report. -/
def reclaimSilently (p : Pool) (h : Handle) : Option (Nat × Pool) :=
  match p.take h with
  | none => none
  | some (b, rest) =>
    some (b.capacity, { rest with
      withheld := rest.withheld ++ [h]
      reclaimedTotal := rest.reclaimedTotal + 1 })

def deliver (p : Pool) (h : Handle) : Pool :=
  if h ∈ p.withheld then { p with reports := p.reports ++ [h], withheld := p.withheld.erase h }
  else p

/-- Reclaims along a queue until no more than `keep` bytes are idle. What is left of the queue is
the pool's queue afterwards. -/
def reclaimAlong (keep : Nat) (p : Pool) (done : Reclaimed) : List Handle → Reclaimed × Pool
  | [] => (done, { p with order := [] })
  | h :: rest =>
    if p.idleBytes ≤ keep then (done, { p with order := h :: rest })
    else match p.reclaim h with
      | some (bytes, after) => reclaimAlong keep after ⟨done.buffers + 1, done.bytes + bytes⟩ rest
      | none => reclaimAlong keep p done rest

/-- Reclaims the longest parked buffers until no more than `keep` bytes are idle. -/
def reclaimDownTo (p : Pool) (keep : Nat) : Reclaimed × Pool :=
  reclaimAlong keep p ⟨0, 0⟩ p.order

def fetch (p : Pool) : List Handle × Pool := (p.reports, { p with reports := [] })

end Pool

end BlobExchange
