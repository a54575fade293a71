import BlobExchange.Proofs.IdleOrder
import Mathlib.Algebra.GroupWithZero.Nat
/-! # Reclaiming gives up the longest idle buffers

It gives up as few as will do (`idle_reclaimDownTo`), as the pool's counts are right (`Tallied`).
-/

namespace BlobExchange

/-- The bytes that idle buffers take up. -/
def weight (idle : List (Handle × Buffer)) : Nat := (idle.map fun e => e.2.capacity).sum

/-- What is left of idle buffers when the first ones are given up until the others take up no more
than `keep` bytes. -/
def lighter (keep : Nat) : List (Handle × Buffer) → List (Handle × Buffer)
  | [] => []
  | e :: rest => if weight (e :: rest) ≤ keep then e :: rest else lighter keep rest

/-- The idle buffers that are given up until the others take up no more than `keep` bytes. -/
def surplus (keep : Nat) : List (Handle × Buffer) → List (Handle × Buffer)
  | [] => []
  | e :: rest => if weight (e :: rest) ≤ keep then [] else e :: surplus keep rest

section Lighter

variable {keep : Nat} {idle older : List (Handle × Buffer)} {e : Handle × Buffer}

theorem weight_cons : weight (e :: idle) = e.2.capacity + weight idle := by
  simp [weight]

theorem weight_append (idle more : List (Handle × Buffer)) :
    weight (idle ++ more) = weight idle + weight more := by
  simp [weight]

theorem weight_perm (h : idle.Perm older) : weight idle = weight older :=
  (h.map _).sum_nat

theorem lighter_of_le (h : weight idle ≤ keep) : lighter keep idle = idle := by
  cases idle with
  | nil => rfl
  | cons e rest => rw [lighter, if_pos h]

theorem surplus_of_le (h : weight idle ≤ keep) : surplus keep idle = [] := by
  cases idle with
  | nil => rfl
  | cons e rest => rw [surplus, if_pos h]

theorem surplus_append_lighter (keep : Nat) (idle : List (Handle × Buffer)) :
    surplus keep idle ++ lighter keep idle = idle := by
  induction idle with
  | nil => rfl
  | cons e rest ih =>
    rw [surplus, lighter]
    split
    · rfl
    · rw [List.cons_append, ih]

theorem weight_lighter (keep : Nat) (idle : List (Handle × Buffer)) :
    weight (lighter keep idle) ≤ keep := by
  induction idle with
  | nil => exact Nat.zero_le keep
  | cons e rest ih =>
    rw [lighter]
    split
    · assumption
    · exact ih

/-- None of those given up could have been kept. -/
theorem surplus_needed {fewer back : List (Handle × Buffer)}
    (h : surplus keep idle = fewer ++ back) (hback : back ≠ []) :
    keep < weight (back ++ lighter keep idle) := by
  induction idle generalizing fewer with
  | nil =>
    obtain ⟨-, rfl⟩ := List.append_eq_nil_iff.1 h.symm
    exact absurd rfl hback
  | cons e rest ih =>
    by_cases hlight : weight (e :: rest) ≤ keep
    · rw [surplus_of_le hlight] at h
      obtain ⟨-, rfl⟩ := List.append_eq_nil_iff.1 h.symm
      exact absurd rfl hback
    · rw [lighter, if_neg hlight]
      rw [surplus, if_neg hlight] at h
      cases fewer with
      | nil =>
        rw [List.nil_append] at h
        rw [← h, List.cons_append, surplus_append_lighter]
        exact Nat.lt_of_not_le hlight
      | cons f fewer =>
        rw [List.cons_append, List.cons.injEq] at h
        exact ih h.2

/-- The last buffer stays if the bound permits it, and takes its bytes from those before it. -/
theorem lighter_append (keep : Nat) (older : List (Handle × Buffer)) (e : Handle × Buffer) :
    lighter keep (older ++ [e]) =
      if e.2.capacity ≤ keep then lighter (keep - e.2.capacity) older ++ [e] else [] := by
  have hweight : ∀ idle, weight (idle ++ [e]) = weight idle + e.2.capacity := by
    intro idle
    rw [weight_append]
    rfl
  induction older with
  | nil =>
    have halone := hweight []
    change weight [e] = 0 + e.2.capacity at halone
    rw [Nat.zero_add] at halone
    show (if weight [e] ≤ keep then [e] else []) = _
    rw [halone]
    rfl
  | cons d rest ih =>
    have hall := hweight (d :: rest)
    rw [List.cons_append] at hall ⊢
    rw [lighter, lighter, hall]
    by_cases hlight : weight (d :: rest) + e.2.capacity ≤ keep
    · have hbefore : weight (d :: rest) ≤ keep - e.2.capacity := by omega
      have hfits : e.2.capacity ≤ keep := by omega
      rw [if_pos hlight, if_pos hfits, if_pos hbefore]
      rfl
    · have hbefore : e.2.capacity ≤ keep → ¬ weight (d :: rest) ≤ keep - e.2.capacity := by omega
      rw [if_neg hlight, ih]
      by_cases hfits : e.2.capacity ≤ keep
      · rw [if_pos hfits, if_pos hfits, if_neg (hbefore hfits)]
      · rw [if_neg hfits, if_neg hfits]

/-- The last buffer stays, unless it exceeds the bound alone. -/
theorem lighter_concat (keep : Nat) (older : List (Handle × Buffer)) (e : Handle × Buffer) :
    (∃ left, lighter keep (older ++ [e]) = left ++ [e]) ∨
      lighter keep (older ++ [e]) = [] ∧ keep < e.2.capacity := by
  rw [lighter_append]
  split
  · exact Or.inl ⟨_, rfl⟩
  · rename_i hlarge
    exact Or.inr ⟨rfl, Nat.lt_of_not_le hlarge⟩

end Lighter

namespace Pool

variable {p q : Pool} {h : Handle} {b : Buffer}

/-- The pool lists its idle buffers, and knows how many they are and the bytes that they take up. -/
structure Tallied (p : Pool) : Prop where
  complete : p.Complete
  distinct : (p.idle.map Prod.fst).Nodup
  idleBuffers : p.idleBuffers = p.idle.length
  idleBytes : p.idleBytes = weight p.idle

namespace Tallied

theorem tally_take (hp : p.Tallied) (ht : p.take h = some (b, q)) :
    p.idleBuffers = q.idleBuffers + 1 ∧ p.idleBytes = q.idleBytes + b.capacity := by
  have hperm := idle_take hp.complete hp.distinct ht
  have hfewer : q.idleBuffers = p.idleBuffers - 1 := by rw [eq_of_take ht]
  have hless : q.idleBytes = p.idleBytes - b.capacity := by rw [eq_of_take ht]
  have hlength := hperm.length_eq
  have hweight := weight_perm hperm
  rw [List.length_cons, ← hp.idleBuffers] at hlength
  rw [weight_cons, ← hp.idleBytes] at hweight
  change p.idleBytes = b.capacity + weight q.idle at hweight
  constructor <;> omega

theorem take (hp : p.Tallied) (ht : p.take h = some (b, q)) : q.Tallied := by
  have hlost := Loses.take ht
  have hperm := idle_take hp.complete hp.distinct ht
  have hcount := hp.idleBuffers
  have hbytes := hp.idleBytes
  obtain ⟨hfewer, hless⟩ := hp.tally_take ht
  refine ⟨hlost.complete hp.complete, ?_, ?_, ?_⟩
  · rw [hlost.idle]
    exact hp.distinct.sublist (List.filter_sublist.map _)
  · have hlength := hperm.length_eq
    rw [List.length_cons] at hlength
    omega
  · have hweight := weight_perm hperm
    rw [weight_cons] at hweight
    change weight p.idle = b.capacity + weight q.idle at hweight
    omega

theorem alike (hp : p.Tallied) (hpq : p.Alike q) : q.Tallied := by
  have hidle := hpq.idle
  have hclaimed := claimed?_of_core hpq.core
  refine ⟨?_, ?_, ?_, ?_⟩
  · intro j c hj
    rw [← hclaimed] at hj
    rw [← hidle]
    exact hp.complete j c hj
  · rw [← hidle]
    exact hp.distinct
  · rw [← hidle, ← hp.idleBuffers]
    show q.core.idleBuffers = p.core.idleBuffers
    rw [hpq.core]
  · rw [← hidle, ← hp.idleBytes]
    show q.core.idleBytes = p.core.idleBytes
    rw [hpq.core]

theorem surrender (hp : p.Tallied) (h : Handle) : (p.surrender h).Tallied := by
  unfold Pool.surrender
  cases ht : p.take h with
  | none => exact hp
  | some taken =>
    have htaken := hp.take ht
    exact ⟨htaken.complete, htaken.distinct, htaken.idleBuffers, htaken.idleBytes⟩

theorem surrenderAll (hp : p.Tallied) (lost : List Handle) : (p.surrenderAll lost).Tallied := by
  unfold Pool.surrenderAll
  induction lost generalizing p with
  | nil => exact hp
  | cons h rest ih => exact ih (hp.surrender h)

theorem sufferAll (hp : p.Tallied) (deeds : List Reclamation) : (p.sufferAll deeds).Tallied :=
  (hp.surrenderAll (p.losses deeds)).alike (alike_sufferAll p deeds).symm

end Tallied

theorem tally_park (p : Pool) (b : Buffer) :
    (p.park b).2.idleBuffers = p.idleBuffers + 1 ∧
      (p.park b).2.idleBytes = p.idleBytes + b.capacity := by
  have hsweep : ∀ q : Pool,
      q.sweep.idleBuffers = q.idleBuffers ∧ q.sweep.idleBytes = q.idleBytes := by
    intro q
    rcases sweep_eq q with h | h <;> rw [h] <;> exact ⟨rfl, rfl⟩
  simp only [park, hsweep]
  unfold place
  split <;> exact ⟨rfl, rfl⟩

/-! ## Reclaiming -/

/-- The idle buffers along a queue of handles. -/
def idleAlong (p : Pool) (queue : List Handle) : List (Handle × Buffer) :=
  queue.filterMap fun h => (p.claimed? h).map fun b => (h, b)

theorem idle_eq (p : Pool) : p.idle = p.idleAlong p.order := by
  unfold idle idleAlong liveOrder
  rw [List.filterMap_filter]
  apply List.filterMap_congr
  intro h _
  unfold isLive
  cases p.claimed? h <;> simp

/-- When a buffer is reclaimed, those of other handles stay. -/
theorem idleAlong_reclaim {bytes : Nat} {rest : List Handle} (hr : p.reclaim h = some (bytes, q))
    (other : ∀ e ∈ p.idleAlong rest, e.1 ≠ h) : q.idleAlong rest = p.idleAlong rest := by
  obtain ⟨c, r, taken, -, rfl⟩ := take_of_reclaim hr
  apply List.filterMap_congr
  intro j hj
  have hclaimed : r.claimed? j = if j = h then none else p.claimed? j := claimed?_take taken j
  show (r.claimed? j).map _ = _
  rw [hclaimed]
  by_cases heq : j = h
  · subst heq
    refine absurd rfl (other (j, c) ?_)
    exact List.mem_filterMap.2 ⟨j, hj, by rw [claimed?_of_take taken]; rfl⟩
  · rw [if_neg heq]

/-- The pool's counts are those of the idle buffers along a queue. -/
structure CountsAlong (p : Pool) (queue : List Handle) : Prop where
  distinct : ((p.idleAlong queue).map Prod.fst).Nodup
  idleBuffers : p.idleBuffers = (p.idleAlong queue).length
  idleBytes : p.idleBytes = weight (p.idleAlong queue)

theorem Tallied.countsAlong (hp : p.Tallied) : p.CountsAlong p.order := by
  have hidle := idle_eq p
  refine ⟨?_, ?_, ?_⟩
  · rw [← hidle]
    exact hp.distinct
  · rw [← hidle]
    exact hp.idleBuffers
  · rw [← hidle]
    exact hp.idleBytes

namespace CountsAlong

variable {rest : List Handle} {after : Pool} {bytes : Nat}

/-- A dead handle may still be queued. It can be passed over. -/
theorem skip (hp : p.CountsAlong (h :: rest)) (hr : p.reclaim h = none) :
    p.idleAlong (h :: rest) = p.idleAlong rest ∧ p.CountsAlong rest := by
  have hskip : p.idleAlong (h :: rest) = p.idleAlong rest := by
    simp [idleAlong, reclaim_eq_none_iff.1 hr]
  obtain ⟨distinct, idleBuffers, idleBytes⟩ := hp
  rw [hskip] at distinct idleBuffers idleBytes
  exact ⟨hskip, distinct, idleBuffers, idleBytes⟩

/-- A live handle at the front is that of the first idle buffer. Without it the counts are right for
the others. -/
theorem go (hp : p.CountsAlong (h :: rest)) (hr : p.reclaim h = some (bytes, after)) :
    ∃ b, p.claimed? h = some b ∧ p.idleAlong (h :: rest) = (h, b) :: after.idleAlong rest ∧
      after.reports = p.reports ++ [h] ∧ after.CountsAlong rest := by
  obtain ⟨b, q, taken, -, hafter⟩ := take_of_reclaim hr
  obtain ⟨distinct, idleBuffers, idleBytes⟩ := hp
  have hfirst : p.idleAlong (h :: rest) = (h, b) :: p.idleAlong rest := by
    simp [idleAlong, claimed?_of_take taken]
  rw [hfirst] at distinct idleBuffers idleBytes ⊢
  rw [List.map_cons, List.nodup_cons] at distinct
  have hothers : after.idleAlong rest = p.idleAlong rest :=
    idleAlong_reclaim hr fun e he heq => distinct.1 (List.mem_map.2 ⟨e, he, heq⟩)
  have hfewer : after.idleBuffers = p.idleBuffers - 1 := by rw [hafter, eq_of_take taken]
  have hless : after.idleBytes = p.idleBytes - b.capacity := by rw [hafter, eq_of_take taken]
  rw [weight_cons] at idleBytes
  rw [← hothers] at distinct idleBuffers idleBytes ⊢
  refine ⟨b, claimed?_of_take taken, rfl, by rw [hafter, eq_of_take taken], distinct.2, ?_, ?_⟩
  · rw [hfewer, idleBuffers]
    rfl
  · rw [hless, idleBytes]
    exact Nat.add_sub_cancel_left _ _

end CountsAlong

theorem idle_reclaimAlong (keep : Nat) (p : Pool) (done : Reclaimed) (queue : List Handle)
    (hp : p.CountsAlong queue) :
    (reclaimAlong keep p done queue).2.idle = lighter keep (p.idleAlong queue) := by
  -- Along the rest of the queue only those idle buffers are left that were not reclaimed, and the
  -- counts are theirs. This carries the induction.
  induction queue generalizing p done with
  | nil => rfl
  | cons h rest ih =>
    unfold reclaimAlong
    split
    · rename_i hlight
      rw [hp.idleBytes] at hlight
      rw [lighter_of_le hlight]
      exact idle_eq _
    · rename_i hheavy
      rw [hp.idleBytes] at hheavy
      cases hr : p.reclaim h with
      | none =>
        obtain ⟨hskip, hrest⟩ := hp.skip hr
        rw [hskip]
        exact ih p done hrest
      | some reclaimed =>
        obtain ⟨bytes, after⟩ := reclaimed
        obtain ⟨b, -, hfirst, -, hrest⟩ := hp.go hr
        rw [hfirst] at hheavy ⊢
        rw [lighter, if_neg hheavy]
        exact ih after _ hrest

/-- Reclaiming gives up the longest idle buffers, as few as will do. -/
theorem idle_reclaimDownTo (hp : p.Tallied) (keep : Nat) :
    (p.reclaimDownTo keep).2.idle = lighter keep p.idle := by
  rw [idle_eq p]
  exact idle_reclaimAlong keep p ⟨0, 0⟩ p.order hp.countsAlong

/-- What reclaiming says that it reclaimed is what is no longer idle. -/
theorem Tallied.reclaimAlong (hp : p.Tallied) (keep : Nat) (done : Reclaimed)
    (queue : List Handle) :
    let result := Pool.reclaimAlong keep p done queue
    result.1.buffers + result.2.idleBuffers = done.buffers + p.idleBuffers ∧
      result.1.bytes + result.2.idleBytes = done.bytes + p.idleBytes := by
  induction queue generalizing p done with
  | nil => exact ⟨rfl, rfl⟩
  | cons h rest ih =>
    unfold Pool.reclaimAlong
    split
    · exact ⟨rfl, rfl⟩
    · split
      · rename_i bytes after hr
        obtain ⟨b, q, taken, rfl, rfl⟩ := take_of_reclaim hr
        obtain ⟨hfewer, hless⟩ := hp.tally_take taken
        have htaken := hp.take taken
        have hrest := ih (p := { q with
          reports := q.reports ++ [h], reclaimedTotal := q.reclaimedTotal + 1 })
          ⟨htaken.complete, htaken.distinct, htaken.idleBuffers, htaken.idleBytes⟩
          ⟨done.buffers + 1, done.bytes + b.capacity⟩
        simp only at hrest ⊢
        omega
      · exact ih hp done

theorem Tallied.reclaimDownTo (hp : p.Tallied) (keep : Nat) :
    let result := p.reclaimDownTo keep
    result.1.buffers + result.2.idleBuffers = p.idleBuffers ∧
      result.1.bytes + result.2.idleBytes = p.idleBytes := by
  intro result
  have hall := hp.reclaimAlong keep ⟨0, 0⟩ p.order
  rw [Nat.zero_add, Nat.zero_add] at hall
  exact hall

end Pool

namespace Exchange

/-- The idle buffers are in order. How many they are is known, and the bytes that they take up. -/
structure Tallied (x : Exchange) (hand : Hand) : Prop where
  inOrder : x.InOrder hand
  idleBuffers : x.pool.idleBuffers = x.pool.idle.length
  idleBytes : x.pool.idleBytes = weight x.pool.idle

namespace Tallied

variable {x : Exchange} {hand : Hand}

theorem pool (hx : x.Tallied hand) : x.pool.Tallied :=
  ⟨hx.inOrder.complete, hx.inOrder.ranks.distinct, hx.idleBuffers, hx.idleBytes⟩

theorem act {orderly : Prop} {a b : Exchange × Hand} (ha : a.1.Tallied a.2) (h : Act orderly a b) :
    b.1.Tallied b.2 := by
  have hb : b.1.InOrder b.2 := ha.inOrder.act h
  have htaken : ∀ (x : Exchange) (size : Nat), x.pool.Tallied →
      (x.takeIdle size).2.pool.Tallied := by
    intro x size hx
    show (x.shelf.pick size Pool.upgrade x.pool).1.state.Tallied
    rcases Shelf.state_pick x.shelf size x.pool with ⟨-, hstate⟩ | ⟨hit, -, taken⟩
    · rw [hstate]
      exact hx
    · exact hx.take taken
  cases h with
  | @strike x hand deeds =>
    have hstruck := ha.pool.sufferAll deeds
    rw [← pool_amid x deeds] at hstruck
    exact ⟨hb, hstruck.idleBuffers, hstruck.idleBytes⟩
  | @reclaim x keep =>
    have hreclaimed := ha.pool.sufferAll [.downTo keep]
    exact ⟨hb, hreclaimed.idleBuffers, hreclaimed.idleBytes⟩
  | @catchUp x others =>
    have hfetched : x.pool.fetch.2.Tallied := ha.pool.alike ⟨rfl, rfl⟩
    have hcaught := hfetched.sufferAll (others.afterFetch x.pool.reports)
    rw [← pool_catchUp] at hcaught
    exact ⟨hb, hcaught.idleBuffers, hcaught.idleBytes⟩
  | find size found =>
    have hfound := htaken _ size ha.pool
    exact ⟨hb, hfound.idleBuffers, hfound.idleBytes⟩
  | miss size missed =>
    have hmissed := htaken _ size ha.pool
    exact ⟨hb, hmissed.idleBuffers, hmissed.idleBytes⟩
  | @park x id b =>
    obtain ⟨hbuffers, hbytes⟩ := Pool.tally_park x.pool b
    have hidle := Pool.idle_park ha.inOrder.pool_sound b
    refine ⟨hb, ?_, ?_⟩
    · show (x.pool.park b).2.idleBuffers = (x.pool.park b).2.idle.length
      rw [hbuffers, hidle, List.length_append, List.length_singleton, ← ha.idleBuffers]
    · show (x.pool.park b).2.idleBytes = weight (x.pool.park b).2.idle
      have hbefore := ha.idleBytes
      change x.pool.idleBytes = weight x.pool.idle at hbefore
      rw [hbytes, hidle, hbefore]
      simp [weight]
  | _ => exact ⟨hb, ha.idleBuffers, ha.idleBytes⟩

theorem acts {orderly : Prop} {y : Exchange} (hx : x.Tallied .empty) (h : Acts orderly x y) :
    y.Tallied .empty :=
  h.keep (P := fun a => a.1.Tallied a.2) (fun _ _ ha hact => ha.act hact) hx

theorem assemble (settings : Settings) (supplier : Supplier) :
    (Exchange.assemble settings supplier).Tallied .empty :=
  ⟨.assemble settings supplier, rfl, rfl⟩

end Tallied

/-! ## Putting a buffer away -/

section PutAway

variable {x : Exchange} {id : BlobId} {b : Buffer}

theorem keepBudget_of_none (h : x.settings.idleBudget = none) : x.keepBudget = x := by
  unfold keepBudget
  rw [h]

theorem pool_keepBudget {budget : Nat} (h : x.settings.idleBudget = some budget) :
    x.keepBudget.pool = (x.pool.reclaimDownTo budget).2 := by
  unfold keepBudget
  rw [h]
  simp only
  split <;> rfl

/-- Keeping the budget is a matter of the pool. -/
theorem keepBudget_apart (x : Exchange) : x.keepBudget.shelf = x.shelf ∧
    x.keepBudget.shelfIds = x.shelfIds ∧ x.keepBudget.counters = x.counters := by
  unfold keepBudget
  split
  · exact ⟨rfl, rfl, rfl⟩
  · simp only
    split <;> exact ⟨rfl, rfl, rfl⟩

/-- The handle under which a buffer is parked, when others have struck before. -/
def parkedAt (x : Exchange) (b : Buffer) (others : Interference) : Handle :=
  ((x.pool.sufferAll others.beforePark).park b).1

/-- The idle buffers when a buffer was parked, the longest idle first: those that others left before
it was parked, and the buffer itself, without what others reclaimed afterwards. -/
def waiting (x : Exchange) (b : Buffer) (others : Interference) : List (Handle × Buffer) :=
  let left := x.pool.idle.filter fun e => decide (e.1 ∉ x.pool.losses others.beforePark)
  let parked := ((x.pool.sufferAll others.beforePark).park b).2
  (left ++ [(x.parkedAt b others, b)]).filter fun e =>
    decide (e.1 ∉ parked.losses others.afterPark)

/-- Of the idle buffers that there are when a buffer is put away, the budget decides which stay. -/
theorem Tallied.idle_putAway (hx : x.Tallied (.ended id b)) (others : Interference) :
    (x.putAway id b others).pool.idle = match x.settings.idleBudget with
      | none => x.waiting b others
      | some budget => lighter budget (x.waiting b others) := by
  -- the exchange once the handle is shelved, before the budget is kept
  let struck := x.amid others.beforePark
  let parked : Exchange := { struck with pool := (struck.pool.park b).2 }
  let waiting := parked.amid others.afterPark
  let shelved := Exchange.note { waiting.shelve b.capacity (struck.pool.park b).1 with
    counters := waiting.counters.disposal } (.disposed id b.capacity)
  have hstruck := Tallied.act hx (show Act False (x, .ended id b) (struck, _) from .strike _)
  have hparked := hstruck.act (show Act False (struck, .ended id b) (parked, _) from .park)
  have hwaiting := hparked.act (show Act False _ (waiting, _) from .strike _)
  have hshelved := hwaiting.act (show Act False _ (shelved, _) from .shelve)
  have hsettings : shelved.settings = x.settings :=
    (settings_amid _ _).trans (settings_amid x others.beforePark)
  have hpool : parked.pool = ((x.pool.sufferAll others.beforePark).park b).2 :=
    congrArg (fun p => (Pool.park p b).2) (pool_amid x others.beforePark)
  have hsound : struck.pool.Sound := hstruck.inOrder.pool_sound
  rw [pool_amid] at hsound
  have hidle : waiting.pool.idle = x.waiting b others := by
    rw [pool_amid, hpool, (Pool.Loses.sufferAll _ others.afterPark).idle, Pool.idle_park hsound,
      (Pool.Loses.sufferAll x.pool others.beforePark).idle]
    rfl
  show shelved.keepBudget.pool.idle = _
  cases hbudget : x.settings.idleBudget with
  | none =>
    rw [keepBudget_of_none (hsettings ▸ hbudget)]
    exact hidle
  | some budget =>
    rw [pool_keepBudget (hsettings ▸ hbudget), Pool.idle_reclaimDownTo hshelved.pool]
    exact congrArg (lighter budget) hidle

end PutAway

end Exchange

/-- In every session it is known how many buffers are idle and how large they are. -/
theorem Session.tallied_run (settings : Settings) (supplier : Supplier) (moves : List Move) :
    ((start settings supplier).run moves).exchange.Tallied .empty :=
  (Exchange.Tallied.assemble settings supplier).acts
    (acts_run (Consistent.start settings supplier) moves)

end BlobExchange
