import BlobExchange.Proofs.Reclaiming
/-! # Pools that differ in their reports

Alike pools have the same buffers in the same slots and reclaim them in the same order. -/

namespace BlobExchange.Pool

/-- A pool without its queue and its reports. -/
def core (p : Pool) : Pool := { p with order := [], reports := [], withheld := [] }

/-- The queue without its dead handles. -/
def liveOrder (p : Pool) : List Handle := p.order.filter p.isLive

/-- The same buffers in the same slots, to be reclaimed in the same order. -/
structure Alike (p q : Pool) : Prop where
  core : p.core = q.core
  order : p.liveOrder = q.liveOrder

variable {p q r u : Pool} {h : Handle} {b : Buffer} {bytes keep : Nat}

theorem isLive_of_core (hpq : p.core = q.core) : p.isLive = q.isLive :=
  show p.core.isLive = q.core.isLive by rw [hpq]

theorem take_core (p : Pool) (h : Handle) :
    p.core.take h = (p.take h).map fun taken => (taken.1, taken.2.core) := by
  have hclaimed : p.core.claimed? h = p.claimed? h := rfl
  unfold take
  rw [hclaimed]
  cases p.claimed? h <;> rfl

theorem take_of_core (hpq : p.core = q.core) (ht : p.take h = some (b, r)) :
    ∃ u, q.take h = some (b, u) ∧ r.core = u.core := by
  have hcore := take_core p h
  rw [hpq, take_core, ht] at hcore
  cases hq : q.take h with
  | none =>
    rw [hq] at hcore
    cases hcore
  | some taken =>
    rw [hq] at hcore
    simp only [Option.map_some, Option.some.injEq, Prod.mk.injEq] at hcore
    exact ⟨taken.2, by rw [← hcore.1], hcore.2.symm⟩

namespace Alike

theorem refl (p : Pool) : p.Alike p := ⟨rfl, rfl⟩

theorem symm (hpq : p.Alike q) : q.Alike p := ⟨hpq.core.symm, hpq.order.symm⟩

theorem trans (hpq : p.Alike q) (hqr : q.Alike r) : p.Alike r :=
  ⟨hpq.core.trans hqr.core, hpq.order.trans hqr.order⟩

theorem isLive (hpq : p.Alike q) : p.isLive = q.isLive := isLive_of_core hpq.core

theorem idleBytes (hpq : p.Alike q) : p.idleBytes = q.idleBytes :=
  show p.core.idleBytes = q.core.idleBytes by rw [hpq.core]

theorem reclaimedTotal (hpq : p.Alike q) : p.reclaimedTotal = q.reclaimedTotal :=
  show p.core.reclaimedTotal = q.core.reclaimedTotal by rw [hpq.core]

end Alike

/-! ## Losing buffers -/

/-- `r` has no buffer that `p` has not, and its queue is that of `p` but for dead handles. -/
structure Dwindles (p r : Pool) : Prop where
  live : ∀ h, r.isLive h = true → p.isLive h = true
  order : r.liveOrder = p.order.filter r.isLive

namespace Dwindles

theorem refl (p : Pool) : p.Dwindles p := ⟨fun _ hl => hl, rfl⟩

/-- Of a list, what is live in the end is what is live in the end of what was live before. -/
theorem filter_filter {α : Type} (f : α → Handle) (hpr : p.Dwindles r) (l : List α) :
    (l.filter fun a => p.isLive (f a)).filter (fun a => r.isLive (f a)) =
      l.filter fun a => r.isLive (f a) := by
  rw [List.filter_filter]
  apply List.filter_congr
  intro a _
  cases hl : r.isLive (f a) with
  | false => rfl
  | true => rw [hpr.live (f a) hl]; rfl

theorem trans (hpr : p.Dwindles r) (hru : r.Dwindles u) : p.Dwindles u := by
  refine ⟨fun h hl => hpr.live h (hru.live h hl), ?_⟩
  have hr : r.order.filter r.isLive = p.order.filter r.isLive := hpr.order
  calc u.liveOrder
      = r.order.filter u.isLive := hru.order
    _ = (r.order.filter r.isLive).filter u.isLive := (hru.filter_filter id r.order).symm
    _ = (p.order.filter r.isLive).filter u.isLive := by rw [hr]
    _ = p.order.filter u.isLive := hru.filter_filter id p.order

theorem take (ht : p.take h = some (b, r)) : p.Dwindles r := by
  refine ⟨fun j hl => ((isLive_take ht j).1 hl).1, ?_⟩
  have horder : r.order = p.order := by rw [eq_of_take ht]
  unfold liveOrder
  rw [horder]

theorem reclaim (hr : p.reclaim h = some (bytes, r)) : p.Dwindles r := by
  obtain ⟨b, rest, taken, -, rfl⟩ := take_of_reclaim hr
  have hrest := take taken
  exact ⟨hrest.live, hrest.order⟩

theorem silently (hr : p.reclaimSilently h = some (bytes, r)) : p.Dwindles r := by
  obtain ⟨b, rest, taken, -, rfl⟩ := take_of_reclaimSilently hr
  have hrest := take taken
  exact ⟨hrest.live, hrest.order⟩

/-- Dead handles at the front of the queue may be left out. -/
theorem passOver {rest : List Handle} (hdead : p.isLive h = false) :
    { p with order := h :: rest }.Dwindles { p with order := rest } := by
  refine ⟨fun _ hl => hl, ?_⟩
  show rest.filter p.isLive = (h :: rest).filter p.isLive
  rw [List.filter_cons_of_neg (by simp [hdead])]

theorem reclaimAlong (keep : Nat) (p : Pool) (done : Reclaimed) (queue : List Handle) :
    { p with order := queue }.Dwindles (Pool.reclaimAlong keep p done queue).2 := by
  induction queue generalizing p done with
  | nil => exact refl _
  | cons h rest ih =>
    unfold Pool.reclaimAlong
    split
    · exact refl _
    · split
      · rename_i bytes after hr
        refine trans ?_ (ih after _)
        have hafter := reclaim hr
        have hdead : after.isLive h = false := by
          obtain ⟨b, taken, ht, -, rfl⟩ := take_of_reclaim hr
          exact Bool.eq_false_iff.2 fun hl => ((isLive_take ht h).1 hl).2 rfl
        refine ⟨hafter.live, ?_⟩
        show rest.filter after.isLive = (h :: rest).filter after.isLive
        rw [List.filter_cons_of_neg (by simp [hdead])]
      · rename_i hr
        have hdead := isLive_eq_false_iff.2 (reclaim_eq_none_iff.1 hr)
        exact trans (passOver hdead) (ih p done)

theorem reclaimDownTo (p : Pool) (keep : Nat) : p.Dwindles (p.reclaimDownTo keep).2 :=
  reclaimAlong keep p ⟨0, 0⟩ p.order

theorem suffer (p : Pool) (deed : Reclamation) : p.Dwindles (p.suffer deed) := by
  cases deed with
  | downTo keep => exact reclaimDownTo p keep
  | silently h =>
    simp only [Pool.suffer]
    split
    · rename_i bytes after hr
      exact silently hr
    · exact refl p
  | deliver h =>
    simp only [Pool.suffer, Pool.deliver]
    split
    · exact ⟨fun _ hl => hl, rfl⟩
    · exact refl p

theorem sufferAll (p : Pool) (deeds : List Reclamation) : p.Dwindles (p.sufferAll deeds) := by
  unfold Pool.sufferAll
  induction deeds generalizing p with
  | nil => exact refl p
  | cons deed rest ih => exact trans (suffer p deed) (ih _)

end Dwindles

/-- Alike pools that dwindle to the same buffers are alike again, whatever became of the queues. -/
theorem Alike.dwindle (hpq : p.Alike q) (hpr : p.Dwindles r) (hqu : q.Dwindles u)
    (hcore : r.core = u.core) : r.Alike u := by
  refine ⟨hcore, ?_⟩
  have horder : p.order.filter p.isLive = q.order.filter q.isLive := hpq.order
  calc r.liveOrder
      = p.order.filter r.isLive := hpr.order
    _ = (p.order.filter p.isLive).filter r.isLive := (hpr.filter_filter id p.order).symm
    _ = (q.order.filter q.isLive).filter u.isLive := by rw [horder, isLive_of_core hcore]
    _ = q.order.filter u.isLive := hqu.filter_filter id q.order
    _ = u.liveOrder := hqu.order.symm

theorem Alike.take (hpq : p.Alike q) (ht : p.take h = some (b, r)) :
    ∃ u, q.take h = some (b, u) ∧ r.Alike u := by
  obtain ⟨u, hu, hcore⟩ := take_of_core hpq.core ht
  exact ⟨u, hu, hpq.dwindle (.take ht) (.take hu) hcore⟩

/-! ## What others do -/

/-- Gives one buffer up, without a word on its report. -/
def surrender (p : Pool) (h : Handle) : Pool :=
  match p.take h with
  | some (_, rest) => { rest with reclaimedTotal := rest.reclaimedTotal + 1 }
  | none => p

/-- Gives buffers up one after the other. -/
def surrenderAll (p : Pool) (handles : List Handle) : Pool := handles.foldl surrender p

theorem surrenderAll_append (p : Pool) (first later : List Handle) :
    p.surrenderAll (first ++ later) = (p.surrenderAll first).surrenderAll later :=
  List.foldl_append

theorem core_of_reclaim (hr : p.reclaim h = some (bytes, q)) : q.core = p.core.surrender h := by
  obtain ⟨b, rest, taken, -, rfl⟩ := take_of_reclaim hr
  unfold surrender
  rw [take_core, taken]
  rfl

theorem core_of_silently (hr : p.reclaimSilently h = some (bytes, q)) :
    q.core = p.core.surrender h := by
  obtain ⟨b, rest, taken, -, rfl⟩ := take_of_reclaimSilently hr
  unfold surrender
  rw [take_core, taken]
  rfl

/-- Reclaiming gives up the buffers whose handles it reports. -/
theorem core_reclaimAlong (keep : Nat) (p : Pool) (done : Reclaimed) (queue : List Handle) :
    ∃ given, (reclaimAlong keep p done queue).2.reports = p.reports ++ given ∧
      (reclaimAlong keep p done queue).2.core = p.core.surrenderAll given := by
  induction queue generalizing p done with
  | nil => exact ⟨[], (List.append_nil _).symm, rfl⟩
  | cons h rest ih =>
    unfold reclaimAlong
    split
    · exact ⟨[], (List.append_nil _).symm, rfl⟩
    · split
      · rename_i bytes after hr
        obtain ⟨given, hreports, hcore⟩ := ih after ⟨done.buffers + 1, done.bytes + bytes⟩
        have hfirst : after.reports = p.reports ++ [h] := by
          obtain ⟨b, taken, ht, -, rfl⟩ := take_of_reclaim hr
          rw [eq_of_take ht]
        refine ⟨h :: given, ?_, ?_⟩
        · rw [hreports, hfirst, List.append_assoc]
          rfl
        · rw [hcore, core_of_reclaim hr]
          rfl
      · exact ih p done

theorem core_suffer (p : Pool) (deed : Reclamation) :
    (p.suffer deed).core = p.core.surrenderAll (p.casualties deed) := by
  cases deed with
  | downTo keep =>
    obtain ⟨given, hreports, hcore⟩ := core_reclaimAlong keep p ⟨0, 0⟩ p.order
    change (p.reclaimDownTo keep).2.reports = _ at hreports
    simp only [casualties, hreports, List.drop_left]
    exact hcore
  | silently h =>
    simp only [suffer, casualties]
    split
    · rename_i bytes after hr
      obtain ⟨b, rest, taken, -⟩ := take_of_reclaimSilently hr
      have hlive : p.isLive h = true := isLive_iff.2 ⟨b, claimed?_of_take taken⟩
      rw [if_pos hlive, core_of_silently hr]
      rfl
    · rename_i hr
      have hdead := isLive_eq_false_iff.2 (reclaimSilently_eq_none_iff.1 hr)
      rw [hdead]
      rfl
  | deliver h =>
    simp only [suffer, deliver, casualties]
    split <;> rfl

/-- What others do leaves what giving up their casualties leaves. -/
theorem core_sufferAll (p : Pool) (deeds : List Reclamation) :
    (p.sufferAll deeds).core = p.core.surrenderAll (p.losses deeds) := by
  unfold sufferAll
  induction deeds generalizing p with
  | nil => rfl
  | cons deed rest ih =>
    rw [List.foldl_cons, ih, core_suffer, losses, surrenderAll_append]

theorem Dwindles.surrenderAll (p : Pool) (handles : List Handle) :
    p.Dwindles (p.surrenderAll handles) := by
  unfold Pool.surrenderAll
  induction handles generalizing p with
  | nil => exact refl p
  | cons h rest ih =>
    refine trans ?_ (ih (p.surrender h))
    unfold surrender
    cases ht : p.take h with
    | none => exact refl p
    | some taken =>
      have htaken := take ht
      exact ⟨htaken.live, htaken.order⟩

theorem core_surrenderAll (p : Pool) (handles : List Handle) :
    (p.surrenderAll handles).core = p.core.surrenderAll handles := by
  unfold surrenderAll
  induction handles generalizing p with
  | nil => rfl
  | cons h rest ih =>
    have hfirst : (p.surrender h).core = p.core.surrender h := by
      unfold surrender
      rw [take_core]
      cases p.take h <;> rfl
    rw [List.foldl_cons, List.foldl_cons, ih, hfirst]

theorem Alike.surrenderAll (hpq : p.Alike q) (handles : List Handle) :
    (p.surrenderAll handles).Alike (q.surrenderAll handles) := by
  apply hpq.dwindle (.surrenderAll p handles) (.surrenderAll q handles)
  rw [core_surrenderAll, core_surrenderAll, hpq.core]

theorem alike_sufferAll (p : Pool) (deeds : List Reclamation) :
    (p.sufferAll deeds).Alike (p.surrenderAll (p.losses deeds)) := by
  refine (Alike.refl p).dwindle (.sufferAll p deeds) (.surrenderAll p _) ?_
  rw [core_sufferAll, core_surrenderAll]

/-! ## Reclaiming down to so many bytes -/

/-- The same amount reclaimed, and the same buffers left. -/
def SameYield (a b : Reclaimed × Pool) : Prop := a.1 = b.1 ∧ a.2.core = b.2.core

theorem reclaim_of_core (hpq : p.core = q.core) (hr : p.reclaim h = some (bytes, r)) :
    ∃ u, q.reclaim h = some (bytes, u) ∧ r.core = u.core := by
  obtain ⟨b, rest, taken, rfl, rfl⟩ := take_of_reclaim hr
  obtain ⟨u, hu, hcore⟩ := take_of_core hpq taken
  refine ⟨{ u with reports := u.reports ++ [h], reclaimedTotal := u.reclaimedTotal + 1 }, ?_, ?_⟩
  · unfold reclaim
    rw [hu]
  · have htotal : rest.reclaimedTotal = u.reclaimedTotal :=
      show rest.core.reclaimedTotal = u.core.reclaimedTotal by rw [hcore]
    show { rest.core with reclaimedTotal := rest.reclaimedTotal + 1 } =
      { u.core with reclaimedTotal := u.reclaimedTotal + 1 }
    rw [hcore, htotal]

theorem reclaim_eq_none_of_core (hpq : p.core = q.core) (hr : p.reclaim h = none) :
    q.reclaim h = none := by
  rw [reclaim_eq_none_iff, ← isLive_eq_false_iff] at hr ⊢
  rw [← isLive_of_core hpq]
  exact hr

section Along

variable {done : Reclaimed} {rest : List Handle}

theorem reclaimAlong_stop (hkeep : p.idleBytes ≤ keep) :
    reclaimAlong keep p done (h :: rest) = (done, { p with order := h :: rest }) := by
  rw [reclaimAlong, if_pos hkeep]

theorem reclaimAlong_skip (hkeep : ¬ p.idleBytes ≤ keep) (hr : p.reclaim h = none) :
    reclaimAlong keep p done (h :: rest) = reclaimAlong keep p done rest := by
  rw [reclaimAlong, if_neg hkeep, hr]

theorem reclaimAlong_go (hkeep : ¬ p.idleBytes ≤ keep) (hr : p.reclaim h = some (bytes, r)) :
    reclaimAlong keep p done (h :: rest) =
      reclaimAlong keep r ⟨done.buffers + 1, done.bytes + bytes⟩ rest := by
  rw [reclaimAlong, if_neg hkeep, hr]

end Along

/-- Along one queue, alike pools yield the same. -/
theorem reclaimAlong_of_core (hpq : p.core = q.core) (done : Reclaimed) (queue : List Handle) :
    SameYield (reclaimAlong keep p done queue) (reclaimAlong keep q done queue) := by
  induction queue generalizing p q done with
  | nil => exact ⟨rfl, hpq⟩
  | cons h rest ih =>
    have hbytes : p.idleBytes = q.idleBytes :=
      show p.core.idleBytes = q.core.idleBytes by rw [hpq]
    by_cases hkeep : p.idleBytes ≤ keep
    · rw [reclaimAlong_stop hkeep, reclaimAlong_stop (hbytes ▸ hkeep)]
      exact ⟨rfl, hpq⟩
    · have hkeep' : ¬ q.idleBytes ≤ keep := hbytes ▸ hkeep
      cases hr : p.reclaim h with
      | none =>
        rw [reclaimAlong_skip hkeep hr, reclaimAlong_skip hkeep' (reclaim_eq_none_of_core hpq hr)]
        exact ih hpq done
      | some reclaimed =>
        obtain ⟨u, hu, hcore⟩ := reclaim_of_core hpq hr
        rw [reclaimAlong_go hkeep hr, reclaimAlong_go hkeep' hu]
        exact ih hcore _

/-- Dead handles in the queue may be left out. -/
theorem reclaimAlong_filter (f : Handle → Bool) (hf : ∀ j, p.isLive j = true → f j = true)
    (done : Reclaimed) (queue : List Handle) :
    SameYield (reclaimAlong keep p done queue) (reclaimAlong keep p done (queue.filter f)) := by
  induction queue generalizing p done with
  | nil => exact ⟨rfl, rfl⟩
  | cons h rest ih =>
    by_cases hkeep : p.idleBytes ≤ keep
    · -- little enough is idle, so either queue is left at once
      have hstop : ∀ l, (reclaimAlong keep p done l).1 = done ∧
          (reclaimAlong keep p done l).2.core = p.core := by
        intro l
        cases l with
        | nil => exact ⟨rfl, rfl⟩
        | cons j l =>
          rw [reclaimAlong_stop hkeep]
          exact ⟨rfl, rfl⟩
      obtain ⟨hdone, hcore⟩ := hstop (h :: rest)
      obtain ⟨hdone', hcore'⟩ := hstop ((h :: rest).filter f)
      exact ⟨hdone.trans hdone'.symm, hcore.trans hcore'.symm⟩
    · cases hr : p.reclaim h with
      | none =>
        rw [reclaimAlong_skip hkeep hr, List.filter_cons]
        split
        · rw [reclaimAlong_skip hkeep hr]
          exact ih hf done
        · exact ih hf done
      | some reclaimed =>
        obtain ⟨b, taken, ht, -⟩ := take_of_reclaim hr
        have hlive : p.isLive h = true := isLive_iff.2 ⟨b, claimed?_of_take ht⟩
        rw [reclaimAlong_go hkeep hr, List.filter_cons_of_pos (hf h hlive),
          reclaimAlong_go hkeep hr]
        exact ih (fun j hj => hf j ((Dwindles.reclaim hr).live j hj)) _

/-- Alike pools yield the same when they are reclaimed down to the same, and stay alike. -/
theorem Alike.reclaimDownTo (hpq : p.Alike q) (keep : Nat) :
    (p.reclaimDownTo keep).1 = (q.reclaimDownTo keep).1 ∧
      (p.reclaimDownTo keep).2.Alike (q.reclaimDownTo keep).2 := by
  have hp : SameYield (p.reclaimDownTo keep) (reclaimAlong keep p ⟨0, 0⟩ p.liveOrder) :=
    reclaimAlong_filter p.isLive (fun _ hl => hl) ⟨0, 0⟩ p.order
  have hq : SameYield (q.reclaimDownTo keep) (reclaimAlong keep q ⟨0, 0⟩ q.liveOrder) :=
    reclaimAlong_filter q.isLive (fun _ hl => hl) ⟨0, 0⟩ q.order
  have hboth : SameYield (reclaimAlong keep p ⟨0, 0⟩ p.liveOrder)
      (reclaimAlong keep q ⟨0, 0⟩ p.liveOrder) :=
    reclaimAlong_of_core hpq.core ⟨0, 0⟩ p.liveOrder
  rw [hpq.order] at hp hboth
  refine ⟨hp.1.trans (hboth.1.trans hq.1.symm), ?_⟩
  apply hpq.dwindle (.reclaimDownTo p keep) (.reclaimDownTo q keep)
  exact hp.2.trans (hboth.2.trans hq.2.symm)

/-! ## Parking -/

theorem core_sweep (p : Pool) : p.sweep.core = p.core := by
  rcases sweep_eq p with h | h <;> rw [h]
  rfl

theorem core_place (p : Pool) (b : Buffer) : (p.place b).core = (p.core.place b).core := by
  unfold place
  cases hf : p.free with
  | nil => simp [core, hf]
  | cons i rest => simp [core, vacancy, hf]

theorem core_park (p : Pool) (b : Buffer) : (p.park b).2.core = (p.core.park b).2.core := by
  unfold park
  rw [core_sweep, core_sweep]
  show { (p.place b).core with
      idleBytes := (p.place b).core.idleBytes + b.capacity
      idleBuffers := (p.place b).core.idleBuffers + 1 } =
    { (p.core.place b).core with
      idleBytes := (p.core.place b).core.idleBytes + b.capacity
      idleBuffers := (p.core.place b).core.idleBuffers + 1 }
  rw [core_place]

/-- The dead handles of a queue have no say in which are live. -/
theorem liveOrder_filter (p : Pool) :
    { p with order := p.order.filter p.isLive }.liveOrder = p.liveOrder := by
  show (p.order.filter p.isLive).filter p.isLive = p.order.filter p.isLive
  rw [List.filter_filter]
  apply List.filter_congr
  intro j _
  exact Bool.and_self _

theorem liveOrder_sweep (p : Pool) : p.sweep.liveOrder = p.liveOrder := by
  rcases sweep_eq p with h | h <;> rw [h]
  exact liveOrder_filter p

/-- The handle under which a buffer is parked goes to the end of the queue. -/
theorem liveOrder_park (hp : p.Sound) (b : Buffer) :
    (p.park b).2.liveOrder = p.liveOrder ++ [p.vacancy] := by
  have hlive : (p.place b).isLive = (p.park b).2.isLive := (isLive_congr (slots_park p b)).symm
  have hkept : p.order.filter (p.park b).2.isLive = p.order.filter p.isLive := by
    apply List.filter_congr
    intro j hj
    -- the queue holds handles that were given out, and the vacancy never was
    have hother : j ≠ p.vacancy := by
      rintro rfl
      rcases hp.parked _ hj with hl | hpast
      · rw [isLive_eq_false_iff.2 hp.claimed?_vacancy] at hl
        cases hl
      · exact hp.not_past_vacancy hpast
    rw [Bool.eq_iff_iff, hp.isLive_park]
    simp [hother]
  have hnew : (p.park b).2.isLive p.vacancy = true := (hp.isLive_park b _).2 (Or.inr rfl)
  calc (p.park b).2.liveOrder
      = ((p.place b).order ++ [p.vacancy]).filter (p.place b).isLive := liveOrder_sweep _
    _ = (p.order ++ [p.vacancy]).filter (p.park b).2.isLive := by rw [order_place, hlive]
    _ = p.order.filter p.isLive ++ [p.vacancy] := by
      rw [List.filter_append, hkept, List.filter_cons_of_pos hnew, List.filter_nil]

theorem Alike.park (hpq : p.Alike q) (hp : p.Sound) (hq : q.Sound) (b : Buffer) :
    (p.park b).1 = (q.park b).1 ∧ (p.park b).2.Alike (q.park b).2 := by
  have hvacancy : p.vacancy = q.vacancy :=
    show p.core.vacancy = q.core.vacancy by rw [hpq.core]
  refine ⟨hvacancy, ?_, ?_⟩
  · rw [core_park p, hpq.core, ← core_park q]
  · rw [liveOrder_park hp, liveOrder_park hq, hpq.order, hvacancy]

end BlobExchange.Pool
