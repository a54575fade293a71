import BlobExchange.Exchange.Construction
import BlobExchange.Exchange.Release
import BlobExchange.Exchange.Upkeep
import BlobExchange.Proofs.Reclaiming
/-! # What leaves the registry alone

Catching up, searching and reclaiming concern idle buffers only. `Backstage` says so, and which
reports were fetched on the way. -/

namespace BlobExchange

namespace Exchange

/-- Whatever led from `x` to `y` concerned idle buffers only. `reports` were fetched on the way. -/
structure Backstage (x y : Exchange) (reports : List Handle) : Prop where
  settings : y.settings = x.settings
  registry : y.registry = x.registry
  blobIds : y.blobIds = x.blobIds
  ended : y.ended = x.ended
  fetched : y.fetched = x.fetched ++ reports

namespace Backstage

variable {x y z : Exchange} {first later : List Handle}

/-- The pool, the shelf and the counters have no say in it. -/
theorem idle (requests : List Nat) (pool : Pool) (shelf : Shelf) (shelfIds : Sequence)
    (counters : Counters) (orphan : Option Handle) :
    Backstage x { x with
      requests := requests
      pool := pool
      shelf := shelf
      shelfIds := shelfIds
      counters := counters
      orphan := orphan } [] :=
  ⟨rfl, rfl, rfl, rfl, (List.append_nil _).symm⟩

theorem refl (x : Exchange) : Backstage x x [] :=
  idle x.requests x.pool x.shelf x.shelfIds x.counters x.orphan

theorem trans (hxy : Backstage x y first) (hyz : Backstage y z later) :
    Backstage x z (first ++ later) where
  settings := hyz.settings.trans hxy.settings
  registry := hyz.registry.trans hxy.registry
  blobIds := hyz.blobIds.trans hxy.blobIds
  ended := hyz.ended.trans hxy.ended
  fetched := by rw [hyz.fetched, hxy.fetched, List.append_assoc]

/-- Nothing more is fetched by what comes first or last. -/
theorem after (hxy : Backstage x y []) (hyz : Backstage y z later) : Backstage x z later :=
  hxy.trans hyz

theorem before (hxy : Backstage x y first) (hyz : Backstage y z []) : Backstage x z first := by
  have h := hxy.trans hyz
  rwa [List.append_nil] at h

theorem note (x : Exchange) (e : Event) (quiet : e.ended = []) :
    Backstage x (x.note e) e.fetched := by
  refine ⟨rfl, rfl, rfl, ?_, fetched_note x e⟩
  rw [ended_note, quiet, List.append_nil]

/-- What is noted before may as well be noted after. -/
theorem noted (hxy : Backstage x y []) (e : Event) : Backstage (x.note e) (y.note e) [] := by
  refine ⟨hxy.settings, hxy.registry, hxy.blobIds, ?_, ?_⟩
  · rw [ended_note, ended_note, hxy.ended]
  · rw [fetched_note, fetched_note, hxy.fetched, List.append_nil, List.append_nil]

theorem amid (x : Exchange) (deeds : List Reclamation) : Backstage x (x.amid deeds) [] := by
  refine ⟨settings_amid x deeds, registry_amid x deeds, blobIds_amid x deeds,
    ended_amid x deeds, ?_⟩
  rw [fetched_amid, List.append_nil]

theorem withPool (x : Exchange) (pool : Pool) : Backstage x { x with pool := pool } [] :=
  idle x.requests pool x.shelf x.shelfIds x.counters x.orphan

theorem reclaimIdle (x : Exchange) (keep : Nat) : Backstage x (x.reclaimIdle keep).2 [] := by
  have hpool := withPool x (x.pool.reclaimDownTo keep).2
  simp only [Exchange.reclaimIdle]
  split
  · exact hpool
  · exact hpool.after (note _ _ rfl)

/-! ## Catching up -/

theorem fetch (x : Exchange) : Backstage x x.fetch.2 x.pool.reports := by
  have hpool := withPool x x.pool.fetch.2
  by_cases hempty : x.pool.fetch.1.isEmpty
  · have hnone : x.pool.reports = [] := List.isEmpty_iff.1 hempty
    rw [hnone]
    simp only [Exchange.fetch, hempty, if_true]
    exact hpool
  · simp only [Exchange.fetch, hempty, Bool.false_eq_true, if_false]
    exact hpool.after (note _ _ rfl)

theorem acknowledge (x : Exchange) (reports : List Handle) :
    Backstage x (x.acknowledge reports) [] := by
  induction reports generalizing x with
  | nil => exact refl x
  | cons h rest ih =>
    unfold Exchange.acknowledge
    split
    · rename_i shelf _
      exact (idle x.requests x.pool shelf x.shelfIds x.counters x.orphan).after (ih _)
    · exact idle x.requests x.pool x.shelf x.shelfIds x.counters (some h)

theorem fetchAmid (x : Exchange) (others : Interference) :
    Backstage x (x.fetchAmid others).2 x.pool.reports :=
  (fetch x).before (amid _ _)

/-- Catching up fetches the reports that there are. -/
theorem catchUp (x : Exchange) (others : Interference) :
    Backstage x (x.catchUp others) x.pool.reports :=
  (fetchAmid x others).before (acknowledge _ _)

/-! ## Searching and reclaiming -/

theorem takeIdle (x : Exchange) (size : Nat) : Backstage x (x.takeIdle size).2 [] := by
  let skipped := (x.shelf.pick size Pool.upgrade x.pool).1.stale.map fun e =>
    Event.staleSkipped e.2 e.1.capacity
  have hquiet : ∀ e ∈ skipped, e.isQuiet = true := by
    intro e he
    obtain ⟨entry, -, rfl⟩ := List.mem_map.1 he
    rfl
  refine ⟨rfl, rfl, rfl, ?_, ?_⟩
  · show (x.journal ++ skipped).flatMap Event.ended = _
    rw [List.flatMap_append, Event.ended_quiet hquiet, List.append_nil]
    rfl
  · show (x.journal ++ skipped).flatMap Event.fetched = _
    rw [List.flatMap_append, Event.fetched_quiet hquiet]
    rfl

theorem keepBudget (x : Exchange) : Backstage x x.keepBudget [] := by
  unfold Exchange.keepBudget
  split
  · exact refl x
  · rename_i budget _
    have hpool := withPool x (x.pool.reclaimDownTo budget).2
    simp only
    split
    · exact hpool
    · exact hpool.after (note _ _ rfl)

end Backstage

/-! ## What is not only behind the scenes -/

variable {x : Exchange} {id : BlobId} {b : Buffer} {registry : Registry}

/-- All but the last step of a construction is behind the scenes: what remains is to issue the
blob, unless the supplier failed. -/
theorem construct_cases (x : Exchange) (size : Nat) (others : Interference) :
    ∃ y, Backstage x y x.pool.reports ∧
      ((∃ halt, x.construct size others = (.error halt, y)) ∨
        ∃ b reused, x.construct size others = y.issue size b reused) := by
  have hfound := (Backstage.catchUp x others).before (Backstage.takeIdle (x.catchUp others) size)
  unfold construct
  split
  · rename_i b y heq
    rw [heq] at hfound
    refine ⟨{ y with counters := y.counters.hit }, ?_, Or.inr ⟨b, true, rfl⟩⟩
    exact hfound.before (.idle y.requests y.pool y.shelf y.shelfIds y.counters.hit y.orphan)
  · rename_i y heq
    rw [heq] at hfound
    have hasked := hfound.before (.idle (y.requests ++ [size]) y.pool y.shelf y.shelfIds y.counters
      y.orphan)
    split
    · rename_i halt z hreq
      cases congrArg Prod.snd hreq
      exact ⟨_, hasked, Or.inl ⟨_, rfl⟩⟩
    · rename_i b z hreq
      cases congrArg Prod.snd hreq
      refine ⟨_, ?_, Or.inr ⟨b, false, rfl⟩⟩
      exact hasked.before (.idle _ y.pool y.shelf y.shelfIds (y.counters.miss b.capacity) y.orphan)

/-- A disposal takes the buffer away from the blob and tells of the blob's end. The rest of it is
behind the scenes. -/
theorem dispose_of_takeBuffer (htaken : x.registry.takeBuffer id = some (b, registry))
    (others : Interference) :
    Backstage ({ x with registry := registry }.note (.disposed id b.capacity))
      (x.dispose id others) [] := by
  let taken : Exchange := { x with registry := registry }
  let struck := taken.amid others.beforePark
  let parked := Exchange.amid { struck with pool := (struck.pool.park b).2 } others.afterPark
  have hparked : Backstage taken parked [] :=
    ((Backstage.amid taken others.beforePark).after
      (Backstage.withPool struck (struck.pool.park b).2)).after (Backstage.amid _ others.afterPark)
  have hcounted : Backstage taken { parked.shelve b.capacity (struck.pool.park b).1 with
      counters := parked.counters.disposal } [] :=
    hparked.after (.idle _ _ _ _ _ _)
  unfold dispose
  rw [htaken]
  exact (hcounted.noted _).after (Backstage.keepBudget _)

theorem dispose_of_none (hnone : x.registry.takeBuffer id = none) (others : Interference) :
    x.dispose id others = x := by
  unfold dispose
  rw [hnone]

end Exchange

end BlobExchange
