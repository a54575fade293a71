import BlobExchange.Proofs.PoolLine
import Mathlib.Data.List.Induction
import Mathlib.Order.Bounds.Basic
/-! # How far a pool grows

Only parking sweeps dead handles out of the queue, but no more handles can be live than there are
slots (`Fits.perform`). -/

namespace BlobExchange.Pool

/-- How many slots hold a buffer. -/
def occupied (p : Pool) : Nat := p.slots.countP fun slot => slot.buffer.isSome

/-- The state after some commands, from the pool of no slots. -/
def after (commands : List PoolCommand) : Pool := (empty.runBy perform commands).2

/-- What a command does to the number of slots: nothing, or it parks a buffer while every slot is
occupied, and makes one for it. -/
inductive Widens (p : Pool) (command : PoolCommand) (q : Pool) : Prop where
  | same (slots : q.slots.length = p.slots.length)
  | made {b : Buffer} (parks : command = .park b) (full : p.occupied = p.slots.length)
    (filled : q.occupied = q.slots.length) (slots : q.slots.length = p.slots.length + 1)

/-- What is known of a pool's slots, its free list and its queue: the count of idle buffers is that
of the occupied slots, each other slot is in the free list once, no slot is made while one is empty,
and the queue is bounded, after parking by the buffers that are idle. -/
structure Bounded (p : Pool) : Prop where
  counted : p.idleBuffers = p.occupied
  listed : ∀ i (hi : i < p.slots.length),
    p.free.count i = if p.slots[i].buffer.isSome then 0 else 1
  known : ∀ i ∈ p.free, i < p.slots.length
  widens : ∀ command, p.Widens command (p.perform command).2
  parked : ∀ b, (p.park b).2.order.length ≤ 2 * (p.park b).2.idleBuffers + 16
  queued : p.order.length ≤ 2 * p.slots.length + 16

variable {p q : Pool} {h : Handle} {b : Buffer}

/-! ## Slots -/

theorem occupied_le (p : Pool) : p.occupied ≤ p.slots.length := List.countP_le_length

theorem occupied_take (ht : p.take h = some (b, q)) :
    p.occupied = q.occupied + 1 ∧ q.slots.length = p.slots.length := by
  have hs := claimed?_eq_some.1 (claimed?_of_take ht)
  obtain ⟨hlt, hslot⟩ := List.getElem?_eq_some_iff.1 hs
  have hfull : p.slots[h.index].buffer.isSome = true := by rw [hslot]; rfl
  have hpos : 0 < p.occupied :=
    List.countP_pos_iff.2 ⟨p.slots[h.index], List.getElem_mem hlt, hfull⟩
  have hset := List.countP_set (p := fun slot : Slot => slot.buffer.isSome) (l := p.slots)
    (a := ⟨h.generation + 1, none⟩) hlt
  simp only [hfull, if_true, Option.isSome_none, Bool.false_eq_true, if_false] at hset
  have hslots : q.slots = p.slots.set h.index ⟨h.generation + 1, none⟩ := by rw [eq_of_take ht]
  rw [← hslots] at hset
  refine ⟨?_, by rw [hslots, List.length_set]⟩
  change q.occupied = p.occupied - 1 + 0 at hset
  omega

/-- A count that is right stays so, and does not fall below zero. -/
theorem counted_take (hp : p.idleBuffers = p.occupied) (ht : p.take h = some (b, q)) :
    q.idleBuffers = q.occupied := by
  have hfewer : q.idleBuffers = p.idleBuffers - 1 := by rw [eq_of_take ht]
  have hemptied := (occupied_take ht).1
  omega

/-- Not all slots are occupied just when the free list has an entry. -/
theorem Sound.occupied_lt_iff (hp : p.Sound) : p.occupied < p.slots.length ↔ p.free ≠ [] := by
  rw [Nat.lt_iff_le_and_ne, and_iff_right p.occupied_le, not_iff_not, occupied,
    List.countP_eq_length, List.eq_nil_iff_forall_not_mem]
  constructor
  · intro hfull i hi
    obtain ⟨generation, hslot⟩ := (hp.mem_free i).1 hi
    simpa using hfull _ (List.mem_of_getElem? hslot)
  · rintro hnone ⟨generation, buffer⟩ hslot
    obtain ⟨i, hi⟩ := List.getElem?_of_mem hslot
    cases buffer with
    | some c => rfl
    | none => exact absurd ((hp.mem_free i).2 ⟨generation, hi⟩) (hnone i)

/-- Placing a buffer fills one slot, and makes it first if no slot is empty. -/
theorem Sound.occupied_place (hp : p.Sound) (b : Buffer) :
    (p.place b).occupied = p.occupied + 1 ∧
      (p.place b).slots.length = if p.free = [] then p.slots.length + 1 else p.slots.length := by
  unfold place
  cases hf : p.free with
  | nil => simp [occupied]
  | cons i rest =>
    obtain ⟨generation, hslot⟩ := (hp.mem_free i).1 (by rw [hf]; exact List.mem_cons_self)
    obtain ⟨hlt, hempty⟩ := List.getElem?_eq_some_iff.1 hslot
    have hset := List.countP_set (p := fun slot : Slot => slot.buffer.isSome) (l := p.slots)
      (a := ⟨p.vacancy.generation, some b⟩) hlt
    simp only [hempty, Option.isSome_none, Bool.false_eq_true, if_false, Option.isSome_some,
      if_true] at hset
    exact ⟨hset, by simp⟩

theorem Sound.count_free (hp : p.Sound) (i : Nat) (hi : i < p.slots.length) :
    p.free.count i = if p.slots[i].buffer.isSome then 0 else 1 := by
  split
  · rename_i hfull
    apply List.count_eq_zero_of_not_mem
    intro hfree
    obtain ⟨generation, hslot⟩ := (hp.mem_free i).1 hfree
    rw [(List.getElem?_eq_some_iff.1 hslot).2] at hfull
    cases hfull
  · rename_i hempty
    apply List.count_eq_one_of_mem hp.nodup_free
    rw [hp.mem_free, List.getElem?_eq_getElem hi]
    refine ⟨p.slots[i].generation, congrArg some ?_⟩
    rw [Bool.not_eq_true, Option.isSome_eq_false_iff, Option.isNone_iff_eq_none] at hempty
    rw [← hempty]

theorem Sound.lt_of_mem_free (hp : p.Sound) {i : Nat} (hi : i ∈ p.free) : i < p.slots.length := by
  obtain ⟨generation, hslot⟩ := (hp.mem_free i).1 hi
  exact (List.getElem?_eq_some_iff.1 hslot).1

/-! ## The queue -/

/-- Each live handle in the queue stands for an idle buffer. -/
theorem length_liveOrder (p : Pool) : p.liveOrder.length = p.idle.length := by
  unfold idle
  rw [eq_comm, List.filterMap_length_eq_length]
  intro j hj
  rw [Option.isSome_map]
  exact (List.mem_filter.1 hj).2

/-- After parking, the queue is bounded by the number of idle buffers: either it was short enough
already, or only live handles are left in it. -/
theorem Tallied.length_order_park (hp : (p.park b).2.Tallied) :
    (p.park b).2.order.length ≤ 2 * (p.park b).2.idleBuffers + 16 := by
  have hlive := length_liveOrder (p.park b).2
  rw [← hp.idleBuffers] at hlive
  have hswept : (p.park b).2 = (p.queued b).sweep := rfl
  rw [hswept] at hlive ⊢
  rw [liveOrder_sweep] at hlive
  unfold sweep at hlive ⊢
  split
  · assumption
  · -- what the sweep leaves are the live handles, as many as there are idle buffers
    rename_i hlong
    rw [if_neg hlong] at hlive
    show (p.queued b).liveOrder.length ≤ 2 * (p.queued b).idleBuffers + 16
    rw [hlive]
    show (p.queued b).idleBuffers ≤ _
    omega

/-- What reclaiming leaves of a queue is its end. -/
theorem order_reclaimAlong (keep : Nat) (p : Pool) (done : Reclaimed) (queue : List Handle) :
    (reclaimAlong keep p done queue).2.order <:+ queue := by
  induction queue generalizing p done with
  | nil => exact List.suffix_rfl
  | cons h rest ih =>
    unfold reclaimAlong
    split
    · exact List.suffix_rfl
    · split
      · exact (ih _ _).trans (List.suffix_cons h rest)
      · exact (ih _ _).trans (List.suffix_cons h rest)

/-! ## Runs -/

/-- What every command keeps: the count is right, and the queue is bounded by the slots. -/
structure Fits (p : Pool) : Prop where
  counted : p.idleBuffers = p.occupied
  queued : p.order.length ≤ 2 * p.slots.length + 16

namespace Fits

/-- A command that makes no slot and does not lengthen the queue needs only to count right. -/
theorem same_slots (hp : p.Fits) (command : PoolCommand) (counted : q.idleBuffers = q.occupied)
    (slots : q.slots.length = p.slots.length) (order : q.order.length ≤ p.order.length) :
    q.Fits ∧ p.Widens command q := by
  refine ⟨⟨counted, ?_⟩, .same slots⟩
  rw [slots]
  exact Nat.le_trans order hp.queued

theorem take (hp : p.Fits) (command : PoolCommand) (ht : p.take h = some (b, q)) :
    q.Fits ∧ p.Widens command q := by
  refine hp.same_slots command (counted_take hp.counted ht) (occupied_take ht).2 ?_
  rw [eq_of_take ht]

theorem park (hp : p.Fits) (sound : p.Sound) (tallied : (p.park b).2.Tallied) :
    (p.park b).2.Fits ∧ p.Widens (.park b) (p.park b).2 := by
  obtain ⟨hfilled, hslots⟩ := sound.occupied_place b
  rw [← slots_park] at hslots
  have hoccupied : (p.park b).2.occupied = p.occupied + 1 := by
    rw [occupied, slots_park]
    exact hfilled
  have hcounted : (p.park b).2.idleBuffers = (p.park b).2.occupied := by
    rw [(tally_park p b).1, hoccupied, hp.counted]
  have hqueue := tallied.length_order_park
  have hmost := (p.park b).2.occupied_le
  refine ⟨⟨hcounted, by omega⟩, ?_⟩
  split at hslots
  · rename_i hnone
    have hfull : p.occupied = p.slots.length :=
      Nat.le_antisymm p.occupied_le (Nat.le_of_not_lt fun hlt => sound.occupied_lt_iff.1 hlt hnone)
    exact .made rfl hfull (by omega) hslots
  · exact .same hslots

theorem reclaim (hp : p.Fits) (keep : Nat) :
    (p.reclaimDownTo keep).2.Fits ∧ p.Widens (.reclaim keep) (p.reclaimDownTo keep).2 := by
  have hkept : KeptByReclaiming fun q =>
      q.idleBuffers = q.occupied ∧ q.slots.length = p.slots.length := by
    refine ⟨fun q order _ hq => hq, ?_⟩
    intro q j bytes r hq hr
    obtain ⟨c, rest, taken, -, rfl⟩ := take_of_reclaim hr
    have hcounted : rest.idleBuffers = rest.occupied := counted_take hq.1 taken
    exact ⟨hcounted, (occupied_take taken).2.trans hq.2⟩
  obtain ⟨hcounted, hslots⟩ := reclaimDownTo_induction hkept keep ⟨hp.counted, rfl⟩
  have hqueue := order_reclaimAlong keep p ⟨0, 0⟩ p.order
  exact hp.same_slots _ hcounted hslots hqueue.length_le

theorem perform (hp : p.Fits) (sound : p.Sound) (command : PoolCommand)
    (tallied : (p.perform command).2.Tallied) :
    (p.perform command).2.Fits ∧ p.Widens command (p.perform command).2 := by
  cases command with
  | park b => exact hp.park sound tallied
  | take h =>
    simp only [Pool.perform]
    split
    · rename_i ht
      exact hp.take _ ht
    · exact hp.same_slots _ hp.counted rfl (Nat.le_refl _)
  | reclaim keep => exact hp.reclaim keep
  | withhold h =>
    simp only [Pool.perform]
    split
    · rename_i hr
      obtain ⟨c, rest, taken, -, rfl⟩ := take_of_reclaimSilently hr
      have hemptied := occupied_take taken
      have hcounted : rest.idleBuffers = rest.occupied := counted_take hp.counted taken
      refine hp.same_slots _ hcounted hemptied.2 ?_
      rw [eq_of_take taken]
    · exact hp.same_slots _ hp.counted rfl (Nat.le_refl _)
  | deliver h =>
    simp only [Pool.perform, deliver]
    split
    · exact hp.same_slots _ hp.counted rfl (Nat.le_refl _)
    · exact hp.same_slots _ hp.counted rfl (Nat.le_refl _)
  | fetch => exact hp.same_slots _ hp.counted rfl (Nat.le_refl _)

end Fits

theorem runBy_concat (step : Pool → PoolCommand → PoolAnswer × Pool) (p : Pool)
    (commands : List PoolCommand) (command : PoolCommand) :
    (p.runBy step (commands ++ [command])).2 = (step (p.runBy step commands).2 command).2 := by
  induction commands generalizing p with
  | nil => rfl
  | cons first rest ih => exact ih (step p first).2

theorem after_concat (commands : List PoolCommand) (command : PoolCommand) :
    after (commands ++ [command]) = ((after commands).perform command).2 :=
  runBy_concat perform empty commands command

theorem sound_after (commands : List PoolCommand) :
    (after commands).Sound ∧ (after commands).Tallied := by
  obtain ⟨line, hserves, hshows⟩ := Shows.empty.runBy_perform Line.orderly_empty commands
  exact ⟨hshows.sound, hshows.tallied (Line.orderly_empty.servesAll hserves)⟩

theorem fits_after (commands : List PoolCommand) : (after commands).Fits := by
  induction commands using List.reverseRecOn with
  | nil => exact ⟨rfl, Nat.zero_le _⟩
  | append_singleton commands command ih =>
    have htallied := (sound_after (commands ++ [command])).2
    rw [after_concat] at htallied ⊢
    exact (ih.perform (sound_after commands).1 command htallied).1

theorem bounded_after (commands : List PoolCommand) : (after commands).Bounded := by
  obtain ⟨hsound, -⟩ := sound_after commands
  have hfits := fits_after commands
  have htallied : ∀ command, ((after commands).perform command).2.Tallied := by
    intro command
    rw [← after_concat]
    exact (sound_after (commands ++ [command])).2
  exact {
    counted := hfits.counted
    listed := hsound.count_free
    known := fun i hi => hsound.lt_of_mem_free hi
    widens := fun command => (hfits.perform hsound command (htallied command)).2
    parked := fun b => (htallied (.park b)).length_order_park
    queued := hfits.queued }

/-- The slots are exactly as many as they had to be: those that there were, or those that are
occupied now. -/
theorem Widens.slots_eq {command : PoolCommand} (hpq : p.Widens command q) :
    q.slots.length = max q.occupied p.slots.length := by
  have hle := q.occupied_le
  cases hpq with
  | same slots => omega
  | made parks full filled slots => omega

/-- A longer run adds one state to those on the way, so the slots are the greater of two numbers. -/
theorem isGreatest_slots (commands : List PoolCommand) :
    IsGreatest {n | ∃ before, before <+: commands ∧ (after before).occupied = n}
      (after commands).slots.length := by
  induction commands using List.reverseRecOn with
  | nil =>
    refine ⟨⟨[], List.prefix_rfl, rfl⟩, ?_⟩
    rintro n ⟨before, hbefore, rfl⟩
    rw [List.prefix_nil.1 hbefore]
    exact Nat.le_refl _
  | append_singleton commands command ih =>
    -- on the way of the longer run lie the states of the shorter one, and its last
    have hstates : {n | ∃ before, before <+: commands ++ [command] ∧ (after before).occupied = n} =
        insert (after (commands ++ [command])).occupied
          {n | ∃ before, before <+: commands ∧ (after before).occupied = n} := by
      ext n
      simp only [List.prefix_concat_iff, Set.mem_ofPred_eq, Set.mem_insert_iff, or_and_right,
        exists_or, exists_eq_left, eq_comm]
    have hslots := ((bounded_after commands).widens command).slots_eq
    rw [← after_concat] at hslots
    rw [hstates, hslots]
    exact ih.insert _

/-- Whatever is asked of a pool, its slots, its free list and its queue are bounded as said, and the
slots are as many as buffers were ever idle at once. -/
theorem growth_is_bounded (commands : List PoolCommand) :
    (after commands).Bounded ∧
      IsGreatest {n | ∃ before, before <+: commands ∧ (after before).idleBuffers = n}
        (after commands).slots.length := by
  refine ⟨bounded_after commands, ?_⟩
  simp only [(fits_after _).counted]
  exact isGreatest_slots commands

end BlobExchange.Pool
