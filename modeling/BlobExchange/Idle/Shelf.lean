import BlobExchange.Idle.Pool
import BlobExchange.Table
/-! # The shelf of idle buffers by capacity

A report names a handle that is on the shelf or one that is awaited. Any other shows that shelf and
pool have come apart. -/

namespace BlobExchange

structure ShelfKey where
  capacity : Nat
  insertion : Nat
  deriving DecidableEq, Repr

/-- The order of the shelf: capacity first, then arrival. -/
def ShelfKey.before (a b : ShelfKey) : Bool :=
  decide (a.capacity < b.capacity ∨ a.capacity = b.capacity ∧ a.insertion < b.insertion)

/-- Handles under their keys in ascending order, the key of each handle, and the handles whose
reports are awaited. -/
structure Shelf where
  entries : List (ShelfKey × Handle)
  keys : Table Handle ShelfKey
  awaited : List Handle

/-- What a search came upon: the key, the handle and what it was upgraded to. -/
structure Hit (α : Type) where
  key : ShelfKey
  handle : Handle
  value : α

/-- A search along entries: what it came upon, the entries that were stale, those it did not reach,
and the state of whoever upgrades. -/
structure Search (α σ : Type) where
  hit : Option (Hit α)
  stale : List (ShelfKey × Handle)
  rest : List (ShelfKey × Handle)
  state : σ

def Search.tried {α σ : Type} (s : Search α σ) : List Handle :=
  s.stale.map Prod.snd ++ s.hit.toList.map Hit.handle

namespace Shelf

def empty : Shelf := ⟨[], Table.empty, []⟩

def size (s : Shelf) : Nat := s.entries.length

/-- An entry put in its place, or in place of the one with the same key. -/
def place (key : ShelfKey) (handle : Handle) :
    List (ShelfKey × Handle) → List (ShelfKey × Handle)
  | [] => [(key, handle)]
  | (k, h) :: rest =>
    if key.before k then (key, handle) :: (k, h) :: rest
    else if key = k then (key, handle) :: rest
    else (k, h) :: place key handle rest

def insert (s : Shelf) (key : ShelfKey) (handle : Handle) : Shelf :=
  { s with entries := place key handle s.entries, keys := s.keys.insert handle key }

/-- Tries entries in turn until one can be upgraded. -/
def search {α σ : Type} (upgrade : σ → Handle → Option α × σ) :
    List (ShelfKey × Handle) → σ → Search α σ
  | [], state => ⟨none, [], [], state⟩
  | (key, handle) :: rest, state =>
    match upgrade state handle with
    | (some value, after) => ⟨some ⟨key, handle, value⟩, [], rest, after⟩
    | (none, after) =>
      let later := search upgrade rest after
      { later with stale := (key, handle) :: later.stale }

def isBelow (least : Nat) (entry : ShelfKey × Handle) : Bool := decide (entry.1.capacity < least)

/-- Awaits the reports of handles, each once. -/
def await (awaited handles : List Handle) : List Handle :=
  handles.foldl (fun known h => if h ∈ known then known else known ++ [h]) awaited

/-- Searches the entries of at least a capacity and takes away what was tried. -/
def pick {α σ : Type} (s : Shelf) (least : Nat) (upgrade : σ → Handle → Option α × σ)
    (state : σ) : Search α σ × Shelf :=
  let found := search upgrade (s.entries.dropWhile (isBelow least)) state
  (found, {
    entries := s.entries.takeWhile (isBelow least) ++ found.rest
    keys := s.keys.eraseAll found.tried
    awaited := await s.awaited (found.stale.map Prod.snd) })

/-- Takes away a handle whose report has come. Nothing comes back if the handle is neither on the
shelf nor awaited. -/
def acknowledge (s : Shelf) (handle : Handle) : Option Shelf :=
  match s.keys.get? handle with
  | some key =>
    some { s with
      entries := s.entries.filter fun e => decide (e.1 ≠ key)
      keys := s.keys.erase handle }
  | none =>
    if handle ∈ s.awaited then
      some { s with awaited := s.awaited.filter fun h => decide (h ≠ handle) }
    else none

end Shelf

/-- Upgrades a handle to the buffer it claims, which leaves the pool. -/
def Pool.upgrade (p : Pool) (h : Handle) : Option Buffer × Pool :=
  match p.take h with
  | some (b, rest) => (some b, rest)
  | none => (none, p)

end BlobExchange
