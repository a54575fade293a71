import BlobExchange.Proofs.Ending
import BlobExchange.Proofs.Reports
import Mathlib.Data.List.DropRight
/-! # What stays idle when everything is reclaimed

Reclamation counts bytes and stops when none are idle, so buffers without capacity that came back
last stay. -/

namespace BlobExchange

/-- The idle buffers without capacity that came back after all others, if they are listed by age. -/
def hollow (idle : List (Handle × Buffer)) : List (Handle × Buffer) :=
  idle.rtakeWhile fun e => decide (e.2.capacity = 0)

section Hollow

variable {idle : List (Handle × Buffer)} {e : Handle × Buffer}

theorem capacity_of_mem_hollow (he : e ∈ hollow idle) : e.2.capacity = 0 := by
  have hnone := List.mem_rtakeWhile_imp he
  simpa using hnone

/-- Nothing is spared just if the buffer that came back last has a capacity. -/
theorem hollow_eq_nil_iff : hollow idle = [] ↔ ∀ h : idle ≠ [], 0 < (idle.getLast h).2.capacity := by
  unfold hollow
  rw [List.rtakeWhile_eq_nil_iff]
  simp [Nat.pos_iff_ne_zero]

/-- Down to no bytes, buffers are given up until those that are left have no capacity. -/
theorem lighter_zero (idle : List (Handle × Buffer)) : lighter 0 idle = hollow idle := by
  unfold hollow
  induction idle using List.reverseRecOn with
  | nil => rfl
  | append_singleton older e ih =>
    rw [lighter_append, List.rtakeWhile_concat, Nat.zero_sub, ih]
    simp only [Nat.le_zero_eq, decide_eq_true_eq]

theorem weight_eq_zero (h : ∀ e ∈ idle, e.2.capacity = 0) : weight idle = 0 := by
  induction idle with
  | nil => rfl
  | cons e rest ih =>
    rw [weight_cons, h e List.mem_cons_self, ih fun d hd => h d (List.mem_cons_of_mem e hd)]

end Hollow

namespace Session

variable {s : Session} {size : Nat} {others : Interference}

/-- A construction finds no idle buffer and asks the supplier. -/
def Misses (s : Session) (size : Nat) (others : Interference) : Prop :=
  let after := (s.step others (.construct size)).2.exchange
  after.requests = s.exchange.requests ++ [size] ∧
    after.counters.hits = s.exchange.counters.hits ∧
    ∀ b, s.exchange.supplier.request s.exchange.requests size = .ok b →
      after.counters.misses = s.exchange.counters.misses + 1

/-- What a session is left with that has no idle buffer but these, which have no capacity. -/
structure LeftWith (left : List (Handle × Buffer)) (s : Session) : Prop where
  idle : s.exchange.pool.idle = left
  idleBuffers : s.exchange.pool.idleBuffers = left.length
  idleBytes : s.exchange.pool.idleBytes = 0
  shelved : s.exchange.pool.withheld = [] → (s.step .absent .shelved).1 = .shelved left.length
  misses : ∀ size others, left = [] ∨ 0 < size → s.Misses size others

theorem misses_of_none (hx : s.exchange.InOrder .empty)
    (hbest : bestFit size (s.exchange.idleAmid others) = none) : s.Misses size others := by
  obtain ⟨y, hy, -, hconstruct⟩ := hx.construct_of_none hbest
  have hhits := congrArg Counters.hits hy.counters
  have hmisses := congrArg Counters.misses hy.counters
  change y.counters.hits = s.exchange.counters.hits at hhits
  change y.counters.misses = s.exchange.counters.misses at hmisses
  have hissue : ∀ (z : Exchange) (b : Buffer) (reused : Bool),
      (z.issue size b reused).2.requests = z.requests := by
    intro z b reused
    unfold Exchange.issue
    split <;> rfl
  have hexchange : (s.step others (.construct size)).2.exchange =
      (s.exchange.construct size others).2 := (construct_eq s size others).2
  unfold Misses
  rw [hexchange, ← hy.requests]
  cases hgiven : s.exchange.supplier.request s.exchange.requests size with
  | error halt =>
    simp only [hgiven] at hconstruct
    rw [hconstruct]
    refine ⟨rfl, hhits, ?_⟩
    intro b hb
    rw [hy.requests, hgiven] at hb
    cases hb
  | ok b =>
    simp only [hgiven] at hconstruct
    have hcounters := fun z : Exchange => Exchange.counters_issue z size b false
    rw [hconstruct]
    refine ⟨hissue _ b false, ?_, ?_⟩
    · exact (congrArg Counters.hits (hcounters _)).trans hhits
    · intro c _
      exact (congrArg Counters.misses (hcounters _)).trans (congrArg (· + 1) hmisses)

/-- While no report is outstanding, the shelf is told to list as many handles as buffers are idle. -/
theorem shelved_of_quiet (hx : s.exchange.Tallied .empty) (hq : s.exchange.pool.withheld = []) :
    (s.step .absent .shelved).1 = .shelved s.exchange.pool.idleBuffers := by
  let caught := s.exchange.catchUp .absent
  have hcaught : caught.Tallied .empty :=
    hx.act (show Act False (s.exchange, .empty) (caught, .empty) from .catchUp .absent)
  have hpool : caught.pool = s.exchange.pool.fetch.2 := Exchange.pool_catchUp _ _
  have hsame : caught.pool.idleBuffers = s.exchange.pool.idleBuffers := by rw [hpool]; rfl
  obtain ⟨-, hagrees⟩ := hcaught.inOrder.sync.agreesWhenQuiet (by rw [hpool]; rfl)
    (by rw [hpool]; exact hq)
  -- the shelf and the list of the idle buffers have the same handles, each once
  have hperm : (caught.shelf.entries.map Prod.snd).Perm (caught.pool.idle.map Prod.fst) := by
    apply (List.perm_ext_iff_of_nodup hcaught.inOrder.shelf_sound.nodup_handles
      hcaught.inOrder.ranks.distinct).2
    intro h
    rw [(hagrees h).2, Pool.isLive_iff, List.mem_map]
    constructor
    · rintro ⟨b, hb⟩
      exact ⟨(h, b), hcaught.inOrder.complete h b hb, rfl⟩
    · rintro ⟨e, he, rfl⟩
      exact ⟨e.2, Pool.claimed?_of_idle he⟩
  have hlength := hperm.length_eq
  rw [List.length_map, List.length_map, ← hcaught.idleBuffers, hsame] at hlength
  exact congrArg Reply.shelved hlength

/-- A session whose idle buffers have no capacity is left with these. -/
theorem leftWith (hx : s.exchange.Tallied .empty)
    (hnone : ∀ e ∈ s.exchange.pool.idle, e.2.capacity = 0) : s.LeftWith s.exchange.pool.idle := by
  refine ⟨rfl, hx.idleBuffers, hx.idleBytes.trans (weight_eq_zero hnone), ?_, ?_⟩
  · intro hq
    rw [← hx.idleBuffers]
    exact shelved_of_quiet hx hq
  · intro size others hsize
    apply misses_of_none hx.inOrder
    rw [bestFit_eq_none_iff]
    intro e he
    have hidle : e ∈ s.exchange.pool.idle := List.mem_of_mem_filter he
    rcases hsize with hempty | hpos
    · rw [hempty] at hidle
      cases hidle
    · rw [hnone e hidle]
      exact hpos

end Session

/-! ## Reclaiming everything -/

namespace Exchange

variable {x : Exchange}

theorem Tallied.reclaimed (hx : x.Tallied .empty) (keep : Nat) :
    Tallied { x with pool := (x.pool.reclaimDownTo keep).2 } .empty :=
  hx.act (show Act False (x, .empty) (_, .empty) from .reclaim keep)

/-- Reclaiming everything yields all bytes that were idle. -/
theorem Tallied.reclaimAll (hx : x.Tallied .empty) :
    (x.pool.reclaimDownTo 0).2.idle = hollow x.pool.idle ∧
      (x.pool.reclaimDownTo 0).1.bytes = x.pool.idleBytes ∧
      (x.pool.reclaimDownTo 0).1.buffers + (hollow x.pool.idle).length = x.pool.idleBuffers := by
  obtain ⟨hbuffers, hbytes⟩ := hx.pool.reclaimDownTo 0
  have hleft := hx.reclaimed 0
  have hidle : (x.pool.reclaimDownTo 0).2.idle = hollow x.pool.idle :=
    (Pool.idle_reclaimDownTo hx.pool 0).trans (lighter_zero _)
  have hcount : (x.pool.reclaimDownTo 0).2.idleBuffers = (hollow x.pool.idle).length :=
    hleft.idleBuffers.trans (congrArg List.length hidle)
  have hnone : (x.pool.reclaimDownTo 0).2.idleBytes = 0 :=
    calc (x.pool.reclaimDownTo 0).2.idleBytes
        = weight (x.pool.reclaimDownTo 0).2.idle := hleft.idleBytes
      _ = weight (hollow x.pool.idle) := congrArg weight hidle
      _ = 0 := weight_eq_zero fun _ he => capacity_of_mem_hollow he
  rw [hcount] at hbuffers
  rw [hnone, Nat.add_zero] at hbytes
  exact ⟨hidle, hbytes, hbuffers⟩

/-- What shrinking leaves idle: the hollow buffers, but for those that others reclaim meanwhile. -/
theorem Tallied.idle_shrink (hx : x.Tallied .empty) (others : Interference) :
    let reclaimed := { x with pool := (x.pool.reclaimDownTo 0).2 }
    let lost := reclaimed.pool.losses others.afterShrink ++
      (reclaimed.amid others.afterShrink).blow others
    (x.shrink others).2.pool.idle =
      (hollow x.pool.idle).filter fun e => decide (e.1 ∉ lost) := by
  intro reclaimed lost
  have hstruck : reclaimed.pool.Loses (reclaimed.amid others.afterShrink).pool
      (reclaimed.pool.losses others.afterShrink) := by
    rw [pool_amid]
    exact .sufferAll reclaimed.pool others.afterShrink
  have hlost := hstruck.trans (loses_catchUp (reclaimed.amid others.afterShrink) others)
  rw [← hx.reclaimAll.1]
  exact hlost.idle

end Exchange

namespace Session

variable {s : Session} {settings : Settings} {supplier : Supplier}

/-- Reclaiming everything yields all bytes that are idle, and leaves the hollow buffers. There are
none just if the buffer that came back last has a capacity. -/
structure SparesHollow (s : Session) : Prop where
  nothing : hollow s.exchange.pool.idle = [] ↔
    ∀ h : s.exchange.pool.idle ≠ [], 0 < (s.exchange.pool.idle.getLast h).2.capacity
  answer : ∀ others, (s.step others .shrink).1 = .shrunk s.exchange.pool.idleBytes
  shrunk : (s.step .absent .shrink).2.LeftWith (hollow s.exchange.pool.idle)
  struck : ∀ others, (s.step others .shrink).2.LeftWith
    (s.step others .shrink).2.exchange.pool.idle
  reclaimed : ∀ others, ∃ count,
    count + (hollow s.exchange.pool.idle).length = s.exchange.pool.idleBuffers ∧
      (s.step others (.reclaim 0)).1 = .reclaimed ⟨count, s.exchange.pool.idleBytes⟩ ∧
      (s.step others (.reclaim 0)).2.LeftWith (hollow s.exchange.pool.idle)

/-- A command ends no blob, or it ends one and leaves the hollow buffers. -/
def DisposesOfAll (s : Session) (others : Interference) (command : Command) : Prop :=
  let after := (s.step others command).2
  after.exchange.ended = s.exchange.ended ∨
    ∃ id b, after.exchange.ended = s.exchange.ended ++ [id] ∧
      (s.ending others command).registry.cells.get? id = some ⟨some b, false⟩ ∧
      after.LeftWith (hollow ((s.ending others command).waiting b others))

theorem sparesHollow (hs : s.Consistent) (hx : s.exchange.Tallied .empty) : s.SparesHollow := by
  have hleft : ∀ others command, (s.step others command).2.exchange.pool.idle ⊆
      hollow s.exchange.pool.idle →
        (s.step others command).2.LeftWith (s.step others command).2.exchange.pool.idle := by
    intro others command hsubset
    have hafter := hx.acts (acts_step hs others command False.elim)
    exact leftWith hafter fun e he => capacity_of_mem_hollow (hsubset he)
  have hstruck := fun others => hx.idle_shrink others
  obtain ⟨hidle, hbytes, hbuffers⟩ := hx.reclaimAll
  have habsent : (s.step .absent .shrink).2.exchange.pool.idle = hollow s.exchange.pool.idle :=
    (hstruck .absent).trans (Pool.filter_lost_none _)
  have hreclaimed : ∀ others, (s.step others (.reclaim 0)).2.exchange.pool.idle =
      hollow s.exchange.pool.idle := by
    intro others
    rw [← hidle]
    show (s.exchange.reclaimIdle 0).2.pool.idle = _
    simp only [Exchange.reclaimIdle]
    split <;> rfl
  refine ⟨hollow_eq_nil_iff, ?_, ?_, ?_, ?_⟩
  · intro others
    exact congrArg Reply.shrunk hbytes
  · have hshrunk := hleft .absent .shrink
    rw [habsent] at hshrunk
    exact hshrunk (List.Subset.refl _)
  · intro others
    apply hleft
    intro e he
    change e ∈ (s.exchange.shrink others).2.pool.idle at he
    rw [hstruck] at he
    exact List.mem_of_mem_filter he
  · intro others
    refine ⟨(s.exchange.pool.reclaimDownTo 0).1.buffers, hbuffers, ?_, ?_⟩
    · rw [← hbytes]
      rfl
    · have hspared := hleft others (.reclaim 0)
      rw [hreclaimed] at hspared
      exact hspared (List.Subset.refl _)

theorem disposesOfAll (hs : s.Consistent) (hx : s.exchange.Tallied .empty)
    (hbudget : s.exchange.settings.idleBudget = some 0) (others : Interference)
    (command : Command) : s.DisposesOfAll others command := by
  have hafter := hx.acts (acts_step hs others command False.elim)
  obtain ⟨hbefore, hnone⟩ := acts_ending hs others command
  rcases ends_step hs others command with hended | ⟨id, b, hends⟩
  · exact Or.inl hended
  · right
    have hidle := hends.idle (hx.acts hbefore)
    rw [hbefore.fixed.1, hbudget] at hidle
    simp only [lighter_zero] at hidle
    refine ⟨id, b, ?_, hends.there, ?_⟩
    · rw [hends.ended, hnone]
    · rw [← hidle]
      apply leftWith hafter
      intro e he
      change e ∈ (s.step others command).2.exchange.pool.idle at he
      rw [hidle] at he
      exact capacity_of_mem_hollow he

/-- In every session, when everything is reclaimed only hollow buffers stay idle, and under a budget of
no bytes only these stay after a disposal. -/
theorem only_hollow_buffers_stay_idle (settings : Settings) (supplier : Supplier)
    (moves : List Move) :
    let s := (start settings supplier).run moves
    s.SparesHollow ∧
      (settings.idleBudget = some 0 → ∀ others command, s.DisposesOfAll others command) := by
  intro s
  have hs : s.Consistent := consistent_run settings supplier moves
  have hx : s.exchange.Tallied .empty := tallied_run settings supplier moves
  refine ⟨sparesHollow hs hx, ?_⟩
  intro hbudget
  apply disposesOfAll hs hx
  rw [(fixed_run settings supplier moves).1]
  exact hbudget

/-- A blob of no bytes is constructed and ends. -/
def nothingLeft : List Move := [⟨.construct 0, .absent⟩, ⟨.finishWriter 0, .absent⟩]

/-- Settings that permit no idle bytes. -/
def strict : Settings := Settings.standard.withIdleBudget 0

theorem hollow_alone_under_no_budget :
    let s := (start strict (.exact strict.growth)).run nothingLeft
    strict.idleBudget = some 0 ∧ s.SparesHollow ∧ ∀ others command, s.DisposesOfAll others command := by
  intro s
  obtain ⟨hspares, hdisposes⟩ :=
    only_hollow_buffers_stay_idle strict (.exact strict.growth) nothingLeft
  exact ⟨rfl, hspares, hdisposes rfl⟩

/-- A buffer without capacity stays idle when everything is reclaimed, and under a budget of no bytes.
The next blob of no bytes gets it. -/
theorem hollow_buffer_is_spared :
    let s := (start Settings.standard (.exact .standard)).run nothingLeft
    s.exchange.pool.reports = [] ∧ s.exchange.pool.withheld = [] ∧
      (s.step .absent .shrink).2.exchange.pool.idleBuffers = 1 ∧
      ((s.step .absent .shrink).2.step .absent .shelved).1 = .shelved 1 ∧
      ¬ (s.step .absent .shrink).2.Misses 0 .absent ∧
      (s.step .absent (.reclaim 0)).2.exchange.pool.idleBuffers = 1 ∧
      ((start strict (.exact strict.growth)).run nothingLeft).exchange.pool.idleBuffers = 1 := by
  intro s
  refine ⟨by decide +kernel, by decide +kernel, by decide +kernel, rfl, ?_, by decide +kernel,
    by decide +kernel⟩
  rintro ⟨-, hhits, -⟩
  revert hhits
  decide +kernel

end Session

end BlobExchange
