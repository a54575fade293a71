import BlobExchange.Proofs.BestFit
import BlobExchange.Proofs.Strikes
import BlobExchange.Proofs.Synchrony
/-! # Exchanges that differ in what they have been told

One of two alike exchanges may have heard of reclaimed buffers of which the other has not. Their
live entries are the same. -/

namespace BlobExchange

namespace Exchange

/-- The same blobs, alike pools, and the same live entries. Only the stale entries skipped may have
been counted differently. -/
structure Alike (x y : Exchange) : Prop where
  settings : x.settings = y.settings
  supplier : x.supplier = y.supplier
  requests : x.requests = y.requests
  registry : x.registry = y.registry
  blobIds : x.blobIds = y.blobIds
  shelfIds : x.shelfIds = y.shelfIds
  counters : { x.counters with staleSkipped := 0 } = { y.counters with staleSkipped := 0 }
  pool : x.pool.Alike y.pool
  entries : x.shelf.liveEntries x.pool = y.shelf.liveEntries y.pool

/-- An exchange that has lost buffers, one after the other. -/
def without (x : Exchange) (lost : List Handle) : Exchange :=
  { x with pool := x.pool.surrenderAll lost }

/-- The answers are the same, and the exchanges are alike afterwards. -/
def AnswerAlike {α : Type} (a b : α × Exchange) : Prop := a.1 = b.1 ∧ a.2.Alike b.2

variable {x y z : Exchange}

theorem AnswerAlike.cases {α : Type} {a b : α × Exchange} (h : AnswerAlike a b) :
    ∃ answer x y, a = (answer, x) ∧ b = (answer, y) ∧ x.Alike y :=
  ⟨a.1, a.2, b.2, rfl, Prod.ext h.1.symm rfl, h.2⟩

namespace Alike

theorem refl (x : Exchange) : x.Alike x := ⟨rfl, rfl, rfl, rfl, rfl, rfl, rfl, .refl _, rfl⟩

theorem symm (h : x.Alike y) : y.Alike x where
  settings := h.settings.symm
  supplier := h.supplier.symm
  requests := h.requests.symm
  registry := h.registry.symm
  blobIds := h.blobIds.symm
  shelfIds := h.shelfIds.symm
  counters := h.counters.symm
  pool := h.pool.symm
  entries := h.entries.symm

theorem trans (h : x.Alike y) (h' : y.Alike z) : x.Alike z where
  settings := h.settings.trans h'.settings
  supplier := h.supplier.trans h'.supplier
  requests := h.requests.trans h'.requests
  registry := h.registry.trans h'.registry
  blobIds := h.blobIds.trans h'.blobIds
  shelfIds := h.shelfIds.trans h'.shelfIds
  counters := h.counters.trans h'.counters
  pool := h.pool.trans h'.pool
  entries := h.entries.trans h'.entries

/-- The journal, the strikes and what the shelf awaits have no say in it. -/
theorem note (h : x.Alike y) (e f : Event) : (x.note e).Alike (y.note f) :=
  ⟨h.settings, h.supplier, h.requests, h.registry, h.blobIds, h.shelfIds, h.counters, h.pool,
    h.entries⟩

theorem noteAfter (x : Exchange) (e : Event) : x.Alike (x.note e) :=
  ⟨rfl, rfl, rfl, rfl, rfl, rfl, rfl, .refl _, rfl⟩

/-- Live entries stay the same while alike pools lose the same buffers. -/
theorem dwindle (h : x.Alike y) {p q : Pool} (hp : x.pool.Dwindles p) (hq : y.pool.Dwindles q)
    (hpq : p.Alike q) : x.shelf.liveEntries p = y.shelf.liveEntries q := by
  have hentries := h.entries
  unfold Shelf.liveEntries at hentries ⊢
  rw [← hp.filter_filter Prod.snd, ← hq.filter_filter Prod.snd, hentries, hpq.isLive]

theorem withPool (h : x.Alike y) {p q : Pool} (hp : x.pool.Dwindles p) (hq : y.pool.Dwindles q)
    (hpq : p.Alike q) : { x with pool := p }.Alike { y with pool := q } :=
  ⟨h.settings, h.supplier, h.requests, h.registry, h.blobIds, h.shelfIds, h.counters, hpq,
    h.dwindle hp hq hpq⟩

/-! ## Reclaiming -/

theorem without (h : x.Alike y) (lost : List Handle) : (x.without lost).Alike (y.without lost) :=
  h.withPool (.surrenderAll _ lost) (.surrenderAll _ lost) (h.pool.surrenderAll lost)

/-- A strike comes to the loss of its casualties. -/
theorem struck (x : Exchange) (deeds : List Reclamation) :
    (x.amid deeds).Alike (x.without (x.pool.losses deeds)) := by
  have hpool := (refl x).withPool (.sufferAll _ deeds) (.surrenderAll _ _)
    (Pool.alike_sufferAll x.pool deeds)
  refine ⟨?_, ?_, ?_, ?_, ?_, ?_, ?_, ?_, ?_⟩
  · exact settings_amid x deeds
  · exact supplier_amid x deeds
  · exact requests_amid x deeds
  · exact registry_amid x deeds
  · exact blobIds_amid x deeds
  · exact shelfIds_amid x deeds
  · rw [counters_amid]; rfl
  · rw [pool_amid]; exact hpool.pool
  · rw [shelf_amid, pool_amid]; exact hpool.entries

theorem amid (h : x.Alike y) {deeds others : List Reclamation}
    (hlosses : x.pool.losses deeds = y.pool.losses others) :
    (x.amid deeds).Alike (y.amid others) := by
  have hlost := h.without (x.pool.losses deeds)
  have hright := struck y others
  rw [← hlosses] at hright
  exact (struck x deeds).trans (hlost.trans hright.symm)

theorem reclaimDownTo (h : x.Alike y) (keep : Nat) :
    (x.pool.reclaimDownTo keep).1 = (y.pool.reclaimDownTo keep).1 ∧
      { x with pool := (x.pool.reclaimDownTo keep).2 }.Alike
        { y with pool := (y.pool.reclaimDownTo keep).2 } := by
  obtain ⟨hyield, hpool⟩ := h.pool.reclaimDownTo keep
  exact ⟨hyield, h.withPool (.reclaimDownTo _ keep) (.reclaimDownTo _ keep) hpool⟩

theorem reclaimIdle (h : x.Alike y) (keep : Nat) :
    AnswerAlike (x.reclaimIdle keep) (y.reclaimIdle keep) := by
  obtain ⟨hyield, hafter⟩ := h.reclaimDownTo keep
  refine ⟨hyield, ?_⟩
  simp only [Exchange.reclaimIdle, hyield]
  split
  · exact hafter
  · exact hafter.note _ _

theorem keepBudget (h : x.Alike y) : x.keepBudget.Alike y.keepBudget := by
  have hbudget : x.settings.idleBudget = y.settings.idleBudget := by rw [h.settings]
  cases hy : y.settings.idleBudget with
  | none =>
    have hx := hbudget.trans hy
    simp only [Exchange.keepBudget, hx, hy]
    exact h
  | some budget =>
    have hx := hbudget.trans hy
    obtain ⟨hyield, hafter⟩ := h.reclaimDownTo budget
    simp only [Exchange.keepBudget, hx, hy, hyield]
    split
    · exact hafter
    · exact hafter.note _ _

/-! ## Reports -/

theorem fetch (x : Exchange) : x.Alike x.fetch.2 := by
  have hfetched : x.Alike { x with pool := x.pool.fetch.2 } :=
    ⟨rfl, rfl, rfl, rfl, rfl, rfl, rfl, ⟨rfl, rfl⟩, rfl⟩
  simp only [Exchange.fetch]
  split
  · exact hfetched
  · exact hfetched.trans (noteAfter _ _)

theorem acknowledge_one {h : Handle} {due : List Handle} {shelf : Shelf}
    (hx : x.InSync (h :: due) none) (hs : x.shelf.acknowledge h = some shelf) :
    x.Alike { x with shelf := shelf } := by
  obtain ⟨done, -, ht⟩ := hx.tracks
  have hdead : x.pool.isLive h = false := by
    refine (ht.past h ?_).isLive_eq_false
    simp
  refine ⟨rfl, rfl, rfl, rfl, rfl, rfl, rfl, .refl _, ?_⟩
  show x.shelf.liveEntries x.pool = shelf.liveEntries x.pool
  rcases Shelf.acknowledge_cases hs with ⟨key, hk, rfl⟩ | ⟨-, -, rfl⟩
  · -- the entry that goes is the dead handle's own
    unfold Shelf.liveEntries
    rw [List.filter_filter]
    apply List.filter_congr
    intro e he
    by_cases hkey : e.1 = key
    · have heq : e.2 = h := by
        have hentry := (ht.shelf.inverse key h).2 hk
        rw [← hkey] at hentry
        exact ht.shelf.handle_eq he hentry
      simp [heq, hdead]
    · simp [hkey]
  · rfl

/-- Acknowledging what is due changes no live entry. -/
theorem acknowledge {due : List Handle} (first : List Handle) (hx : x.InSync (first ++ due) none) :
    x.Alike (x.acknowledge first) := by
  induction first generalizing x with
  | nil => exact refl x
  | cons h rest ih =>
    -- while the shelf keeps track, the first of the reports that are due can be acknowledged
    obtain ⟨shelf, hshelf, hnext⟩ := hx.acknowledge_one
    unfold Exchange.acknowledge
    rw [hshelf]
    exact (acknowledge_one hx hshelf).trans (ih hnext)

end Alike

/-- Catching up comes to the loss of what others reclaim meanwhile. -/
theorem Alike.caughtUp (hx : x.InSync [] none) (others : Interference) :
    (x.catchUp others).Alike (x.without (x.blow others)) := by
  have hacknowledged : (x.fetchAmid others).2.Alike (x.catchUp others) := by
    have hdue := hx.fetchAmid others
    rw [← List.append_nil (x.fetchAmid others).1] at hdue
    exact acknowledge (x.fetchAmid others).1 hdue
  have hstruck : (x.fetchAmid others).2.Alike (x.fetch.2.without (x.blow others)) := by
    have hafter := struck x.fetch.2 (others.afterFetch x.fetch.1)
    rw [pool_fetch] at hafter
    exact hafter
  exact (hacknowledged.symm.trans hstruck).trans ((fetch x).symm.without _)

/-- Catching up leaves alike what was alike. -/
theorem Alike.catchUp (h : x.Alike y) (hx : x.InSync [] none) (hy : y.InSync [] none)
    {others others' : Interference} (hblow : x.blow others = y.blow others') :
    (x.catchUp others).Alike (y.catchUp others') := by
  have hlost := h.without (x.blow others)
  have hright := caughtUp hy others'
  rw [← hblow] at hright
  exact (caughtUp hx others).trans (hlost.trans hright.symm)

end Exchange

end BlobExchange
