import BlobExchange.Proofs.Strikes
/-! # Searches that others strike into

Strikes between the tries of a search do what they would have done right after the reports were
fetched (`takeIdle_amid`). -/

namespace BlobExchange

/-- Others who go on to do more once the reports are fetched. -/
def Interference.goingOn (others : Interference) (deeds : List Reclamation) : Interference :=
  { others with afterFetch := fun reports => others.afterFetch reports ++ deeds }

namespace Exchange

/-! ## Strikes touch the pool and the journal only -/

theorem pool_sufferAll (x : Exchange) (deeds : List Reclamation) :
    (x.sufferAll deeds).pool = x.pool.sufferAll deeds := by
  obtain ⟨_, -, heq⟩ := sufferAll_eq x deeds
  rw [heq]

theorem shelf_sufferAll (x : Exchange) (deeds : List Reclamation) :
    (x.sufferAll deeds).shelf = x.shelf := by
  obtain ⟨_, -, heq⟩ := sufferAll_eq x deeds
  rw [heq]

theorem sufferAll_append (x : Exchange) (first later : List Reclamation) :
    x.sufferAll (first ++ later) = (x.sufferAll first).sufferAll later :=
  List.foldl_append

/-- Neither the shelf nor the record of strikes decides what a strike does. -/
theorem sufferAll_apart (x : Exchange) (shelf : Shelf) (orphan : Option Handle)
    (strikes : List (List Handle)) (deeds : List Reclamation) :
    { x with shelf := shelf, orphan := orphan, strikes := strikes }.sufferAll deeds =
      { x.sufferAll deeds with shelf := shelf, orphan := orphan, strikes := strikes } := by
  induction deeds generalizing x with
  | nil => rfl
  | cons deed rest ih =>
    have hone : { x with shelf := shelf, orphan := orphan, strikes := strikes }.suffer deed =
        { x.suffer deed with shelf := shelf, orphan := orphan, strikes := strikes } := by
      cases deed with
      | downTo keep =>
        simp only [suffer, reclaimIdle]
        split <;> rfl
      | silently h =>
        simp only [suffer]
        split <;> rfl
      | deliver h => rfl
    show ({ x with shelf := shelf, orphan := orphan, strikes := strikes }.suffer deed).sufferAll
      rest = _
    rw [hone]
    exact ih (x.suffer deed)

/-- Acknowledging looks at the shelf only. -/
theorem acknowledge_of_shelf {x y : Exchange} (shelf : y.shelf = x.shelf)
    (orphan : y.orphan = x.orphan) (reports : List Handle) :
    y.acknowledge reports =
      { y with shelf := (x.acknowledge reports).shelf, orphan := (x.acknowledge reports).orphan } := by
  induction reports generalizing x y with
  | nil =>
    show y = { y with shelf := x.shelf, orphan := x.orphan }
    rw [← shelf, ← orphan]
  | cons h rest ih =>
    unfold acknowledge
    rw [shelf]
    cases x.shelf.acknowledge h with
    | some after =>
      exact ih (x := { x with shelf := after }) (y := { y with shelf := after }) rfl orphan
    | none => rw [← shelf]

/-! ## Searching -/

/-- Tries a handle once others have struck. What is left are the strikes before the later tries. -/
def upgradeAmid (state : Exchange × List (List Reclamation)) (h : Handle) :
    Option Buffer × Exchange × List (List Reclamation) :=
  let struck := state.1.sufferAll (state.2.headD [])
  let tried := struck.pool.upgrade h
  (tried.1, { struck with pool := tried.2 }, state.2.tail)

/-- Takes the best fitting idle buffer while others strike before each try. -/
def takeIdleAmid (x : Exchange) (size : Nat) (tries : List (List Reclamation)) :
    Option Buffer × Exchange :=
  let found := x.shelf.pick size upgradeAmid (x, tries)
  let after := found.1.state.1
  let skipped := found.1.stale.map fun e => Event.staleSkipped e.2 e.1.capacity
  (found.1.hit.map Hit.value, { after with
    shelf := found.2
    counters := after.counters.stale found.1.stale.length
    journal := after.journal ++ skipped })

/-- Strikes before the tries of a search do what they would before the first. Those before tries
that it does not make do nothing. -/
theorem search_amid (entries : List (ShelfKey × Handle)) (x : Exchange)
    (tries : List (List Reclamation)) :
    ∃ count, let before := x.sufferAll (tries.take count).flatten
      let struck := Shelf.search upgradeAmid entries (x, tries)
      let calm := Shelf.search Pool.upgrade entries before.pool
      struck.hit = calm.hit ∧ struck.stale = calm.stale ∧ struck.rest = calm.rest ∧
        struck.state.1 = { before with pool := calm.state } := by
  induction entries generalizing x tries with
  | nil => exact ⟨0, rfl, rfl, rfl, rfl⟩
  | cons e rest ih =>
    obtain ⟨key, handle⟩ := e
    cases ht : (x.sufferAll (tries.headD [])).pool.take handle with
    | some taken =>
      have hfirst : (tries.take 1).flatten = tries.headD [] := by cases tries <;> simp
      refine ⟨1, ?_⟩
      rw [hfirst]
      simp only [Shelf.search, upgradeAmid, Pool.upgrade, ht, and_self]
    | none =>
      obtain ⟨count, hlater⟩ := ih (x.sufferAll (tries.headD [])) tries.tail
      have hmore : (tries.take (count + 1)).flatten =
          tries.headD [] ++ (tries.tail.take count).flatten := by
        cases tries <;> simp
      refine ⟨count + 1, ?_⟩
      rw [hmore, sufferAll_append]
      obtain ⟨hhit, hstale, hrest, hstate⟩ := hlater
      -- the handle was dead when it was tried, so it is dead after the later strikes as well
      have hdead := Pool.isLive_eq_false_iff.2 (Pool.take_eq_none_iff.1 ht)
      have hstill := Pool.sufferAll_induction (Pool.kept_isLive_eq_false handle)
        (tries.tail.take count).flatten hdead
      rw [← pool_sufferAll] at hstill
      have htake := Pool.take_eq_none_iff.2 (Pool.isLive_eq_false_iff.1 hstill)
      simp only [Shelf.search, upgradeAmid, Pool.upgrade, ht, htake]
      exact ⟨hhit, congrArg _ hstale, hrest, hstate⟩

theorem takeIdleAmid_eq (x : Exchange) (size : Nat) (tries : List (List Reclamation)) :
    ∃ count, x.takeIdleAmid size tries =
      (x.sufferAll (tries.take count).flatten).takeIdle size := by
  obtain ⟨count, hhit, hstale, hrest, hstate⟩ :=
    search_amid (x.shelf.entries.dropWhile (Shelf.isBelow size)) x tries
  refine ⟨count, ?_⟩
  simp only [takeIdleAmid, takeIdle, Shelf.pick, Search.tried, shelf_sufferAll, hhit, hstale, hrest,
    hstate]

/-- Strikes after catching up do what they would have done once the reports were fetched. -/
theorem catchUp_struck (x : Exchange) (others : Interference) (deeds : List Reclamation) :
    (x.catchUp others).sufferAll deeds =
      { x.catchUp (others.goingOn deeds) with strikes := (x.catchUp others).strikes } := by
  let z := x.fetch.2
  let first := others.afterFetch x.fetch.1
  let early := (z.amid first).acknowledge x.fetch.1
  let late := (z.amid (first ++ deeds)).acknowledge x.fetch.1
  show early.sufferAll deeds = { late with strikes := early.strikes }
  have hearly : early = { z.sufferAll first with
      shelf := early.shelf, orphan := early.orphan, strikes := early.strikes } := by
    have hstrikes : early.strikes = (z.amid first).strikes := strikes_acknowledge _ _
    rw [hstrikes]
    exact acknowledge_of_shelf rfl rfl _
  -- strikes leave the shelf alone, so early or late the same is acknowledged
  have hlate : late = { z.amid (first ++ deeds) with
      shelf := early.shelf, orphan := early.orphan } := by
    refine acknowledge_of_shelf ?_ ?_ _
    · rw [shelf_amid, shelf_amid]
    · rw [orphan_amid, orphan_amid]
  calc early.sufferAll deeds
      = { (z.sufferAll first).sufferAll deeds with
          shelf := early.shelf, orphan := early.orphan, strikes := early.strikes } := by
        rw [← sufferAll_apart, ← hearly]
    _ = { late with strikes := early.strikes } := by
        rw [hlate, ← sufferAll_append]
        rfl

/-- Strikes between the tries of a search do what they would have done once the reports were
fetched. -/
theorem takeIdle_amid (x : Exchange) (others : Interference) (size : Nat)
    (tries : List (List Reclamation)) :
    ∃ count, let calm :=
        (x.catchUp (others.goingOn (tries.take count).flatten)).takeIdle size
      (x.catchUp others).takeIdleAmid size tries =
        (calm.1, { calm.2 with strikes := (x.catchUp others).strikes }) := by
  obtain ⟨count, heq⟩ := takeIdleAmid_eq (x.catchUp others) size tries
  refine ⟨count, ?_⟩
  rw [heq, catchUp_struck]
  rfl

end Exchange

end BlobExchange
