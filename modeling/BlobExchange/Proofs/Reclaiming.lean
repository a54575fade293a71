import BlobExchange.Exchange.Basic
import BlobExchange.Proofs.Handles
/-! # What others can do to the pool

A property of pools that giving up, delivering and cutting the queue keep is kept by every strike
(`sufferAll_induction`). -/

namespace BlobExchange

namespace Pool

variable {p q : Pool} {h : Handle} {bytes keep : Nat}

theorem take_of_reclaim (hr : p.reclaim h = some (bytes, q)) :
    ∃ b rest, p.take h = some (b, rest) ∧ bytes = b.capacity ∧
      q = { rest with reports := rest.reports ++ [h], reclaimedTotal := rest.reclaimedTotal + 1 } := by
  unfold reclaim at hr
  cases ht : p.take h with
  | none => simp [ht] at hr
  | some taken =>
    simp only [ht, Option.some.injEq, Prod.mk.injEq] at hr
    exact ⟨taken.1, taken.2, rfl, hr.1.symm, hr.2.symm⟩

theorem reclaim_eq_none_iff : p.reclaim h = none ↔ p.claimed? h = none := by
  rw [← take_eq_none_iff, reclaim]
  cases p.take h <;> simp

theorem take_of_reclaimSilently (hr : p.reclaimSilently h = some (bytes, q)) :
    ∃ b rest, p.take h = some (b, rest) ∧ bytes = b.capacity ∧
      q = { rest with
        withheld := rest.withheld ++ [h], reclaimedTotal := rest.reclaimedTotal + 1 } := by
  unfold reclaimSilently at hr
  cases ht : p.take h with
  | none => simp [ht] at hr
  | some taken =>
    simp only [ht, Option.some.injEq, Prod.mk.injEq] at hr
    exact ⟨taken.1, taken.2, rfl, hr.1.symm, hr.2.symm⟩

theorem reclaimSilently_eq_none_iff : p.reclaimSilently h = none ↔ p.claimed? h = none := by
  rw [← take_eq_none_iff, reclaimSilently]
  cases p.take h <;> simp

/-- What reclaiming keeps: giving up one buffer with a report, and cutting the queue. -/
structure KeptByReclaiming (P : Pool → Prop) : Prop where
  order : ∀ p order, order ⊆ p.order → P p → P { p with order := order }
  reclaim : ∀ p h bytes q, P p → p.reclaim h = some (bytes, q) → P q

variable {P : Pool → Prop}

theorem order_of_reclaim (hr : p.reclaim h = some (bytes, q)) : q.order = p.order := by
  obtain ⟨b, rest, taken, -, rfl⟩ := take_of_reclaim hr
  rw [eq_of_take taken]

theorem reclaimAlong_induction (hP : KeptByReclaiming P) (queue : List Handle)
    (done : Reclaimed) (hqueue : queue ⊆ p.order) (hp : P p) :
    P (reclaimAlong keep p done queue).2 := by
  induction queue generalizing p done with
  | nil => exact hP.order p [] hqueue hp
  | cons h rest ih =>
    have hrest : rest ⊆ p.order := fun j hj => hqueue (List.mem_cons_of_mem h hj)
    unfold reclaimAlong
    split
    · exact hP.order p _ hqueue hp
    · split
      · rename_i bytes after hr
        refine ih _ ?_ (hP.reclaim p h bytes after hp hr)
        rw [order_of_reclaim hr]
        exact hrest
      · exact ih _ hrest hp

theorem reclaimDownTo_induction (hP : KeptByReclaiming P) (keep : Nat) (hp : P p) :
    P (p.reclaimDownTo keep).2 :=
  reclaimAlong_induction hP _ _ (List.Subset.refl _) hp

/-- What everything that others do keeps. -/
structure KeptByOthers (P : Pool → Prop) : Prop extends KeptByReclaiming P where
  silently : ∀ p h bytes q, P p → p.reclaimSilently h = some (bytes, q) → P q
  deliver : ∀ p h, P p → P (p.deliver h)

/-- What one deed of others does to a pool. -/
def suffer (p : Pool) : Reclamation → Pool
  | .downTo keep => (p.reclaimDownTo keep).2
  | .silently h =>
    match p.reclaimSilently h with
    | some (_, after) => after
    | none => p
  | .deliver h => p.deliver h

/-- What their deeds do, one after the other. -/
def sufferAll (p : Pool) (deeds : List Reclamation) : Pool := deeds.foldl suffer p

/-- The handles whose buffers their deeds give up. -/
def losses (p : Pool) : List Reclamation → List Handle
  | [] => []
  | deed :: rest => p.casualties deed ++ (p.suffer deed).losses rest

theorem suffer_induction (hP : KeptByOthers P) (deed : Reclamation) (hp : P p) :
    P (p.suffer deed) := by
  cases deed with
  | downTo keep => exact reclaimDownTo_induction hP.toKeptByReclaiming keep hp
  | silently h =>
    simp only [suffer]
    split
    · rename_i bytes after hr
      exact hP.silently p h bytes after hp hr
    · exact hp
  | deliver h => exact hP.deliver p h hp

theorem sufferAll_induction (hP : KeptByOthers P) (deeds : List Reclamation) (hp : P p) :
    P (p.sufferAll deeds) := by
  unfold sufferAll
  induction deeds generalizing p with
  | nil => exact hp
  | cons deed rest ih => exact ih (suffer_induction hP deed hp)

/-- What is not live does not come to life by what others do. -/
theorem kept_isLive_eq_false (h : Handle) : KeptByOthers fun p => p.isLive h = false where
  order _ _ _ hp := hp
  reclaim p j bytes q hp hr := by
    obtain ⟨b, rest, taken, -, rfl⟩ := take_of_reclaim hr
    apply Bool.eq_false_iff.2
    intro hl
    rw [((isLive_take taken h).1 hl).1] at hp
    cases hp
  silently p j bytes q hp hr := by
    obtain ⟨b, rest, taken, -, rfl⟩ := take_of_reclaimSilently hr
    apply Bool.eq_false_iff.2
    intro hl
    rw [((isLive_take taken h).1 hl).1] at hp
    cases hp
  deliver p j hp := by
    unfold deliver
    split <;> exact hp

end Pool

namespace Event

/-- Events that tell of a reclamation or of a search tell of no report and of the end of no
blob. -/
def isQuiet : Event → Bool
  | staleSkipped _ _ => true
  | idleReclaimed _ _ => true
  | shrank _ => true
  | overBudget _ _ => true
  | _ => false

variable {quiet : List Event}

theorem fetched_quiet (hq : ∀ e ∈ quiet, e.isQuiet = true) : quiet.flatMap fetched = [] := by
  rw [List.flatMap_eq_nil_iff]
  intro e he
  have hquiet := hq e he
  cases e <;> first | rfl | cases hquiet

theorem ended_quiet (hq : ∀ e ∈ quiet, e.isQuiet = true) : quiet.flatMap ended = [] := by
  rw [List.flatMap_eq_nil_iff]
  intro e he
  have hquiet := hq e he
  cases e <;> first | rfl | cases hquiet

end Event

namespace Exchange

@[simp] theorem fetched_note (x : Exchange) (e : Event) :
    (x.note e).fetched = x.fetched ++ e.fetched := by
  simp [fetched, note]

@[simp] theorem ended_note (x : Exchange) (e : Event) :
    (x.note e).ended = x.ended ++ e.ended := by
  simp [ended, note]

/-- A deed changes the pool, and the journal at most by quiet events. -/
theorem suffer_eq (x : Exchange) (deed : Reclamation) :
    ∃ quiet, (∀ e ∈ quiet, Event.isQuiet e = true) ∧
      x.suffer deed = { x with pool := x.pool.suffer deed, journal := x.journal ++ quiet } := by
  have hsame : ∀ pool, { x with pool := pool } =
      { x with pool := pool, journal := x.journal ++ [] } := fun pool => by rw [List.append_nil]
  cases deed with
  | downTo keep =>
    by_cases hnone : (x.pool.reclaimDownTo keep).1.buffers = 0
    · refine ⟨[], fun e he => absurd he List.not_mem_nil, ?_⟩
      simp only [suffer, reclaimIdle, hnone, if_true, Pool.suffer]
      exact hsame _
    · refine ⟨[.idleReclaimed (x.pool.reclaimDownTo keep).1 keep], by simp [Event.isQuiet], ?_⟩
      simp only [suffer, reclaimIdle, hnone, if_false, Pool.suffer, note]
  | silently h =>
    refine ⟨[], fun e he => absurd he List.not_mem_nil, ?_⟩
    simp only [suffer, Pool.suffer]
    cases x.pool.reclaimSilently h with
    | some reclaimed => exact hsame reclaimed.2
    | none => exact hsame x.pool
  | deliver h => exact ⟨[], fun e he => absurd he List.not_mem_nil, hsame (x.pool.deliver h)⟩

theorem sufferAll_eq (x : Exchange) (deeds : List Reclamation) :
    ∃ quiet, (∀ e ∈ quiet, Event.isQuiet e = true) ∧
      x.sufferAll deeds =
        { x with pool := x.pool.sufferAll deeds, journal := x.journal ++ quiet } := by
  unfold sufferAll
  induction deeds generalizing x with
  | nil =>
    refine ⟨[], fun e he => absurd he List.not_mem_nil, ?_⟩
    rw [List.append_nil]
    rfl
  | cons deed rest ih =>
    obtain ⟨first, hfirst, heq⟩ := suffer_eq x deed
    obtain ⟨later, hlater, hrest⟩ := ih (x.suffer deed)
    refine ⟨first ++ later, ?_, ?_⟩
    · intro e he
      exact (List.mem_append.1 he).elim (hfirst e) (hlater e)
    · rw [List.foldl_cons, hrest, heq]
      simp only [List.append_assoc]
      rfl

theorem casualties_eq (x : Exchange) (deeds : List Reclamation) :
    x.casualties deeds = x.pool.losses deeds := by
  induction deeds generalizing x with
  | nil => rfl
  | cons deed rest ih =>
    obtain ⟨_, -, heq⟩ := suffer_eq x deed
    rw [casualties, ih, heq]
    rfl

/-- A strike changes the pool, the list of strikes, and the journal at most by quiet events. -/
theorem amid_eq (x : Exchange) (deeds : List Reclamation) :
    ∃ quiet, (∀ e ∈ quiet, Event.isQuiet e = true) ∧
      x.amid deeds = { x with
        pool := x.pool.sufferAll deeds
        journal := x.journal ++ quiet
        strikes := x.strikes ++ [x.pool.losses deeds] } := by
  obtain ⟨quiet, hquiet, heq⟩ := sufferAll_eq x deeds
  refine ⟨quiet, hquiet, ?_⟩
  unfold amid
  rw [heq, casualties_eq]

/-! ## What a strike leaves alone -/

section Amid

variable (x : Exchange) (deeds : List Reclamation)

@[simp] theorem settings_amid : (x.amid deeds).settings = x.settings := by
  obtain ⟨_, -, h⟩ := amid_eq x deeds; rw [h]

@[simp] theorem supplier_amid : (x.amid deeds).supplier = x.supplier := by
  obtain ⟨_, -, h⟩ := amid_eq x deeds; rw [h]

@[simp] theorem requests_amid : (x.amid deeds).requests = x.requests := by
  obtain ⟨_, -, h⟩ := amid_eq x deeds; rw [h]

@[simp] theorem registry_amid : (x.amid deeds).registry = x.registry := by
  obtain ⟨_, -, h⟩ := amid_eq x deeds; rw [h]

@[simp] theorem shelf_amid : (x.amid deeds).shelf = x.shelf := by
  obtain ⟨_, -, h⟩ := amid_eq x deeds; rw [h]

@[simp] theorem pool_amid : (x.amid deeds).pool = x.pool.sufferAll deeds := by
  obtain ⟨_, -, h⟩ := amid_eq x deeds; rw [h]

@[simp] theorem blobIds_amid : (x.amid deeds).blobIds = x.blobIds := by
  obtain ⟨_, -, h⟩ := amid_eq x deeds; rw [h]

@[simp] theorem shelfIds_amid : (x.amid deeds).shelfIds = x.shelfIds := by
  obtain ⟨_, -, h⟩ := amid_eq x deeds; rw [h]

@[simp] theorem counters_amid : (x.amid deeds).counters = x.counters := by
  obtain ⟨_, -, h⟩ := amid_eq x deeds; rw [h]

@[simp] theorem strikes_amid : (x.amid deeds).strikes = x.strikes ++ [x.pool.losses deeds] := by
  obtain ⟨_, -, h⟩ := amid_eq x deeds; rw [h]

@[simp] theorem orphan_amid : (x.amid deeds).orphan = x.orphan := by
  obtain ⟨_, -, h⟩ := amid_eq x deeds; rw [h]

@[simp] theorem fetched_amid : (x.amid deeds).fetched = x.fetched := by
  obtain ⟨quiet, hquiet, h⟩ := amid_eq x deeds
  unfold fetched
  rw [h, List.flatMap_append, Event.fetched_quiet hquiet, List.append_nil]

@[simp] theorem ended_amid : (x.amid deeds).ended = x.ended := by
  obtain ⟨quiet, hquiet, h⟩ := amid_eq x deeds
  unfold ended
  rw [h, List.flatMap_append, Event.ended_quiet hquiet, List.append_nil]

end Amid

end Exchange

end BlobExchange
