import BlobExchange.Proofs.IdleOrder
import BlobExchange.Proofs.Payload
import Mathlib.Data.List.MinMax
/-! # Which buffer a new blob gets

The smallest idle buffer that is large enough and, among equals, the one that has been idle longest
(`constructs_in_best_fit`). -/

namespace BlobExchange

/-- The best fit among idle buffers that are listed by age. -/
def bestFit (size : Nat) (idle : List (Handle × Buffer)) : Option (Handle × Buffer) :=
  (idle.filter fun e => decide (size ≤ e.2.capacity)).argmin fun e => e.2.capacity

variable {size : Nat} {idle : List (Handle × Buffer)} {e : Handle × Buffer}

theorem bestFit_eq_none_iff : bestFit size idle = none ↔ ∀ e ∈ idle, e.2.capacity < size := by
  unfold bestFit
  rw [List.argmin_eq_none, List.filter_eq_nil_iff]
  simp

theorem bestFit_mem (h : bestFit size idle = some e) : e ∈ idle ∧ size ≤ e.2.capacity := by
  have hmem := List.mem_filter.1 (List.argmin_mem h)
  exact ⟨hmem.1, of_decide_eq_true hmem.2⟩

/-- What comes first in a list that is in order has the smaller index. -/
theorem idxOf_le_of_pairwise {α : Type} [DecidableEq α] {R : α → α → Prop} {l : List α} {a b : α}
    (hl : l.Pairwise R) (ha : a ∈ l) (hb : b ∈ l) (hba : ¬ R b a) : l.idxOf a ≤ l.idxOf b := by
  apply Nat.le_of_not_lt
  intro hlt
  have hrelated := List.pairwise_iff_getElem.1 hl (l.idxOf b) (l.idxOf a)
    (List.idxOf_lt_length_iff.2 hb) (List.idxOf_lt_length_iff.2 ha) hlt
  rw [List.getElem_idxOf, List.getElem_idxOf] at hrelated
  exact hba hrelated

namespace Exchange

namespace InOrder

variable {x : Exchange}

theorem shelf_sound {hand : Hand} (hx : x.InOrder hand) : x.shelf.Sound := by
  obtain ⟨_, -, ht⟩ := hx.sync.tracks
  exact ht.shelf

theorem entry (hx : x.InOrder .empty) (he : e ∈ x.pool.idle) :
    ∃ key, (key, e.1) ∈ x.shelf.entries ∧ key.capacity = e.2.capacity := by
  obtain ⟨_, -, ht⟩ := hx.sync.tracks
  have hlive : x.pool.isLive e.1 = true := Pool.isLive_iff.2 ⟨e.2, Pool.claimed?_of_idle he⟩
  rcases (ht.known e.1).2 (Or.inl hlive) with hheld | hawaited | hloose
  · obtain ⟨key, hkey⟩ := hheld
    have hentry := (ht.shelf.inverse key e.1).2 hkey
    exact ⟨key, hentry, hx.ranks.sized e he key hentry⟩
  · -- only dead handles are awaited
    rw [(ht.apart e.1 hawaited).2] at hlive
    cases hlive
  · cases hloose

/-- The entries that a search considers are those of the idle buffers that are large enough. -/
theorem mem_candidates (hx : x.InOrder .empty) {key : ShelfKey} {h : Handle} :
    (key, h) ∈ (x.shelf.liveEntries x.pool).filter (fun e => !Shelf.isBelow size e) ↔
      (key, h) ∈ x.shelf.entries ∧ ∃ b, (h, b) ∈ x.pool.idle ∧ size ≤ b.capacity := by
  rw [List.mem_filter, Shelf.liveEntries, List.mem_filter, and_assoc]
  apply and_congr_right
  intro hentry
  constructor
  · rintro ⟨hlive, hlarge⟩
    obtain ⟨b, hb⟩ := Pool.isLive_iff.1 hlive
    have hidle := hx.complete h b hb
    have hsized := hx.ranks.sized (h, b) hidle key hentry
    change key.capacity = b.capacity at hsized
    refine ⟨b, hidle, ?_⟩
    simp only [Shelf.isBelow, Bool.not_eq_true', decide_eq_false_iff_not] at hlarge
    omega
  · rintro ⟨b, hidle, hlarge⟩
    have hsized := hx.ranks.sized (h, b) hidle key hentry
    change key.capacity = b.capacity at hsized
    refine ⟨Pool.isLive_iff.2 ⟨b, Pool.claimed?_of_idle hidle⟩, ?_⟩
    simp only [Shelf.isBelow, Bool.not_eq_true', decide_eq_false_iff_not]
    omega

/-- If an entry comes first among those that a search considers, all others of large enough idle
buffers come later on the shelf: they are larger, or as large and younger. -/
theorem later_of_first (hx : x.InOrder .empty) {key : ShelfKey} {h : Handle}
    {others : List (ShelfKey × Handle)}
    (hfirst : (x.shelf.liveEntries x.pool).filter (fun e => !Shelf.isBelow size e) =
      (key, h) :: others) :
    ∀ e ∈ x.pool.idle, size ≤ e.2.capacity → e.1 = h ∨
      ∃ later, (later, e.1) ∈ x.shelf.entries ∧ later.capacity = e.2.capacity ∧
        key.before later = true := by
  have hsorted : ((x.shelf.liveEntries x.pool).filter fun e => !Shelf.isBelow size e).Pairwise
      fun a b => a.1.before b.1 = true :=
    (hx.shelf_sound.sorted.filter _).filter _
  rw [hfirst, List.pairwise_cons] at hsorted
  intro e he hsize
  obtain ⟨later, hlater, hcapacity⟩ := hx.entry he
  have hmem := hx.mem_candidates.2 ⟨hlater, e.2, he, hsize⟩
  rw [hfirst] at hmem
  rcases List.mem_cons.1 hmem with heq | hmem
  · exact Or.inl (congrArg Prod.snd heq)
  · exact Or.inr ⟨later, hlater, hcapacity, hsorted.1 _ hmem⟩

/-- The first entry that a search considers is that of the best fit. -/
theorem bestFit_of_first (hx : x.InOrder .empty) {key : ShelfKey} {h : Handle} {b : Buffer}
    {others : List (ShelfKey × Handle)}
    (hfirst : (x.shelf.liveEntries x.pool).filter (fun e => !Shelf.isBelow size e) =
      (key, h) :: others)
    (hb : x.pool.claimed? h = some b) : bestFit size x.pool.idle = some (h, b) := by
  obtain ⟨hentry, c, hidle, hlarge⟩ := hx.mem_candidates.1 (hfirst ▸ List.mem_cons_self)
  rw [Pool.claimed?_of_idle hidle] at hb
  cases hb
  have hlater := hx.later_of_first hfirst
  have hsized := hx.ranks.sized _ hidle key hentry
  change key.capacity = b.capacity at hsized
  have hself : ∀ e ∈ x.pool.idle, e.1 = h → e = (h, b) :=
    fun e he heq => List.inj_on_of_nodup_map hx.ranks.distinct he hidle heq
  unfold bestFit
  rw [List.argmin_eq_some_iff]
  refine ⟨List.mem_filter.2 ⟨hidle, decide_eq_true hlarge⟩, ?_, ?_⟩
  · intro e he
    obtain ⟨he, hsize⟩ := List.mem_filter.1 he
    rcases hlater e he (of_decide_eq_true hsize) with heq | ⟨later, -, hcapacity, hbefore⟩
    · rw [hself e he heq]
    · rw [ShelfKey.before_iff] at hbefore
      show b.capacity ≤ e.2.capacity
      omega
  · intro e he hle
    have hin := List.mem_filter.1 he
    change e.2.capacity ≤ b.capacity at hle
    rcases hlater e hin.1 (of_decide_eq_true hin.2) with heq | ⟨later, hkey, hcapacity, hbefore⟩
    · rw [hself e hin.1 heq]
    · -- of equal capacities the first was shelved earlier, so it is older
      apply idxOf_le_of_pairwise (hx.ranks.ranked.filter _)
        (List.mem_filter.2 ⟨hidle, decide_eq_true hlarge⟩) he
      intro hyounger
      have hinsertion := hyounger later key hkey hentry
      rw [ShelfKey.before_iff] at hbefore
      omega

theorem fit (hx : x.InOrder .empty) (size : Nat) :
    (x.shelf.fit size x.pool).map (fun hit => (hit.handle, hit.value)) =
      bestFit size x.pool.idle := by
  have hfound := Shelf.fit_entry hx.shelf_sound size x.pool
  rcases Shelf.state_pick x.shelf size x.pool with ⟨hnone, -⟩ | ⟨hit, hsome, taken⟩
  · -- nothing was found, so no idle buffer is large enough
    rw [hnone] at hfound ⊢
    have hempty := List.head?_eq_none_iff.1 hfound.symm
    symm
    show bestFit size x.pool.idle = none
    rw [bestFit_eq_none_iff]
    intro e he
    obtain ⟨key, hentry, -⟩ := hx.entry he
    apply Nat.lt_of_not_le
    intro hlarge
    have hmem := hx.mem_candidates.2 ⟨hentry, e.2, he, hlarge⟩
    rw [hempty] at hmem
    cases hmem
  · rw [hsome] at hfound ⊢
    obtain ⟨others, hfirst⟩ := List.head?_eq_some_iff.1 hfound.symm
    exact (hx.bestFit_of_first hfirst (Pool.claimed?_of_take taken)).symm

/-- A search takes the best fit and leaves the other idle buffers. -/
theorem takeIdle_of_some (hx : x.InOrder .empty) {h : Handle} {b : Buffer}
    (hbest : bestFit size x.pool.idle = some (h, b)) :
    (x.takeIdle size).1 = some b ∧
      (x.takeIdle size).2.pool.idle = x.pool.idle.filter fun e => decide (e.1 ≠ h) := by
  have hfit := hx.fit size
  rw [hbest, Option.map_eq_some_iff] at hfit
  obtain ⟨hit, hhit, heq⟩ := hfit
  cases heq
  have hidle := (loses_takeIdle x size).idle
  rw [hhit] at hidle
  refine ⟨congrArg (Option.map Hit.value) hhit, hidle.trans ?_⟩
  apply List.filter_congr
  intro e _
  simp

/-- A search without a fit leaves all idle buffers. -/
theorem takeIdle_of_none (hx : x.InOrder .empty) (hbest : bestFit size x.pool.idle = none) :
    (x.takeIdle size).1 = none ∧ (x.takeIdle size).2.pool.idle = x.pool.idle := by
  have hfit := hx.fit size
  rw [hbest, Option.map_eq_none_iff] at hfit
  have hidle := (loses_takeIdle x size).idle
  rw [hfit] at hidle
  refine ⟨congrArg (Option.map Hit.value) hfit, hidle.trans ?_⟩
  apply List.filter_eq_self.2
  intro e _
  simp

end InOrder

/-- The idle buffers that are left when others have struck, the longest idle first. -/
def idleAmid (x : Exchange) (others : Interference) : List (Handle × Buffer) :=
  x.pool.idle.filter fun e => decide (e.1 ∉ x.blow others)

/-- Every idle buffer has just one entry on the shelf, under its capacity. -/
def Findable (x : Exchange) : Prop :=
  ∀ e ∈ x.pool.idle, ∃ key, key.capacity = e.2.capacity ∧
    x.shelf.entries.filter (fun d => decide (d.2 = e.1)) = [(key, e.1)]

theorem InOrder.findable {x : Exchange} (hx : x.InOrder .empty) : x.Findable := by
  intro e he
  obtain ⟨key, hentry, hsized⟩ := hx.entry he
  refine ⟨key, hsized, ?_⟩
  exact filter_key hx.shelf_sound.nodup_handles hentry

/-! ## Constructions -/

section Construct

variable {x : Exchange} {others : Interference} {h : Handle} {b : Buffer}

/-- What a construction does before a buffer is in hand: blobs and books stay as they are. -/
structure Prepares (x y : Exchange) : Prop where
  backstage : ∃ reports, Backstage x y reports
  supplier : y.supplier = x.supplier
  requests : y.requests = x.requests
  counters : { y.counters with staleSkipped := 0 } = { x.counters with staleSkipped := 0 }

theorem prepares (hx : x.InSync [] none) (size : Nat) (others : Interference) :
    x.Prepares ((x.catchUp others).takeIdle size).2 := by
  have hcaught := Alike.caughtUp hx others
  refine ⟨⟨_, (Backstage.catchUp x others).before (.takeIdle _ size)⟩, ?_, ?_, ?_⟩
  · exact hcaught.supplier
  · exact hcaught.requests
  · exact hcaught.counters

theorem InOrder.caughtUp (hx : x.InOrder .empty) (others : Interference) :
    (x.catchUp others).InOrder .empty ∧ (x.catchUp others).pool.idle = x.idleAmid others :=
  ⟨hx.lose (hx.sync.catchUp others) (loses_catchUp x others) (entries_catchUp x others),
    (loses_catchUp x others).idle⟩

theorem InOrder.construct_of_some (hx : x.InOrder .empty)
    (hbest : bestFit size (x.idleAmid others) = some (h, b)) :
    ∃ y, x.Prepares y ∧ y.pool.idle = (x.idleAmid others).filter (fun e => decide (e.1 ≠ h)) ∧
      x.construct size others = { y with counters := y.counters.hit }.issue size b true := by
  obtain ⟨hcaught, hidle⟩ := hx.caughtUp others
  rw [← hidle] at hbest ⊢
  obtain ⟨hfound, hleft⟩ := hcaught.takeIdle_of_some hbest
  refine ⟨_, prepares hx.sync size others, hleft, ?_⟩
  unfold construct
  generalize (x.catchUp others).takeIdle size = taken at hfound
  obtain ⟨found, y⟩ := taken
  cases hfound
  rfl

theorem InOrder.construct_of_none (hx : x.InOrder .empty)
    (hbest : bestFit size (x.idleAmid others) = none) :
    ∃ y, x.Prepares y ∧ y.pool.idle = x.idleAmid others ∧
      x.construct size others = match x.supplier.request x.requests size with
        | .error halt => (.error (halt.map .buffer), { y with requests := y.requests ++ [size] })
        | .ok b => Exchange.issue { y with
            requests := y.requests ++ [size]
            counters := y.counters.miss b.capacity } size b false := by
  obtain ⟨hcaught, hidle⟩ := hx.caughtUp others
  rw [← hidle] at hbest ⊢
  obtain ⟨hmissed, hleft⟩ := hcaught.takeIdle_of_none hbest
  have hprepared := prepares hx.sync size others
  refine ⟨_, hprepared, hleft, ?_⟩
  have hsupplier := hprepared.supplier
  have hrequests := hprepared.requests
  unfold construct
  generalize (x.catchUp others).takeIdle size = taken at hmissed hsupplier hrequests
  obtain ⟨found, y⟩ := taken
  cases hmissed
  change y.supplier = x.supplier at hsupplier
  change y.requests = x.requests at hrequests
  rw [← hsupplier, ← hrequests]
  simp only [requestBuffer]
  cases y.supplier.request y.requests size <;> simp only

end Construct

end Exchange

/-- A supplier that gives buffers of at least the size that is asked for. -/
def Supplier.Adequate (supplier : Supplier) : Prop :=
  ∀ earlier size b, supplier.request earlier size = .ok b → size ≤ b.capacity

theorem Supplier.Adequate.exact (policy : GrowthPolicy) : (Supplier.exact policy).Adequate := by
  intro _ size b hb
  simp only [Supplier.exact, GrowthPolicy.newBuffer, Buffer.create] at hb
  split at hb
  · cases hb
  · split at hb
    · cases hb
      exact Nat.le_refl _
    · cases hb

namespace Session

variable {s : Session} {size : Nat} {others : Interference}

/-- A construction in a buffer of at least the size: the next blob is empty and has that buffer.
Once the counter has run out there is no next blob. -/
structure BuiltIn (b : Buffer) (s : Session) (size : Nat) (answer : Reply × Session) : Prop where
  large : size ≤ b.capacity
  reply : answer.1 = .constructed
    (if s.exchange.blobIds.isSpent then .error .overflow else .ok s.exchange.blobIds.nextId.1)
  blob : s.exchange.blobIds.isSpent = false →
    answer.2.bufferOf s.exchange.blobIds.nextId.1 = some b.emptied

/-- A construction that failed uses up no identifier, and neither blobs nor books show it. -/
structure CameToNothing (halt : Halt BufferError) (s : Session) (answer : Reply × Session) :
    Prop where
  reply : answer.1 = .constructed (.error (halt.map .buffer))
  blobIds : answer.2.exchange.blobIds = s.exchange.blobIds
  registry : answer.2.exchange.registry = s.exchange.registry
  writers : answer.2.writers = s.writers
  hits : answer.2.exchange.counters.hits = s.exchange.counters.hits
  misses : answer.2.exchange.counters.misses = s.exchange.counters.misses
  disposals : answer.2.exchange.counters.disposals = s.exchange.counters.disposals

/-- How a blob of some size is constructed: in the best fit, which leaves the idle buffers, or, if
there is none, in what the supplier gives when it is asked for exactly the size. The other idle
buffers stay, and each can be found again. -/
structure ChoosesBest (s : Session) (size : Nat) (others : Interference)
    (answer : Reply × Session) : Prop where
  reuse : ∀ h b, bestFit size (s.exchange.idleAmid others) = some (h, b) →
    BuiltIn b s size answer ∧ answer.2.exchange.requests = s.exchange.requests ∧
      answer.2.exchange.pool.idle =
        (s.exchange.idleAmid others).filter fun e => decide (e.1 ≠ h)
  supply : bestFit size (s.exchange.idleAmid others) = none →
    ∀ b, s.exchange.supplier.request s.exchange.requests size = .ok b →
      BuiltIn b s size answer ∧ answer.2.exchange.requests = s.exchange.requests ++ [size] ∧
        answer.2.exchange.pool.idle = s.exchange.idleAmid others
  refuse : bestFit size (s.exchange.idleAmid others) = none →
    ∀ halt, s.exchange.supplier.request s.exchange.requests size = .error halt →
      CameToNothing halt s answer ∧
        answer.2.exchange.requests = s.exchange.requests ++ [size] ∧
        answer.2.exchange.pool.idle = s.exchange.idleAmid others
  findable : answer.2.exchange.Findable

/-- What a construction answers and leaves is told by the exchange. -/
theorem construct_eq (s : Session) (size : Nat) (others : Interference) :
    (s.construct size others).1 = .constructed (s.exchange.construct size others).1 ∧
      (s.construct size others).2.exchange = (s.exchange.construct size others).2 := by
  unfold construct Producer.construct
  generalize s.exchange.construct size others = constructed
  obtain ⟨outcome, x⟩ := constructed
  cases outcome <;> exact ⟨rfl, rfl⟩

theorem writers_construct {halt : Halt BlobError}
    (hx : (s.exchange.construct size others).1 = .error halt) :
    (s.construct size others).2.writers = s.writers := by
  unfold construct Producer.construct
  generalize s.exchange.construct size others = constructed at hx ⊢
  obtain ⟨outcome, x⟩ := constructed
  cases hx
  rfl

/-- A construction that comes to issuing a blob builds it in the buffer in hand. -/
theorem builtIn_of_issue {y : Exchange} {b : Buffer} {reused : Bool}
    (hids : y.blobIds = s.exchange.blobIds) (large : size ≤ b.capacity)
    (hx : s.exchange.construct size others = y.issue size b reused) :
    BuiltIn b s size (s.construct size others) ∧
      (s.construct size others).2.exchange.requests = y.requests ∧
      (s.construct size others).2.exchange.pool = y.pool := by
  obtain ⟨hreply, hexchange⟩ := construct_eq s size others
  rw [hx] at hreply hexchange
  cases hspent : y.blobIds.isSpent with
  | true =>
    rw [Exchange.issue_of_spent hspent] at hreply hexchange
    rw [hexchange]
    rw [hids] at hspent
    refine ⟨⟨large, ?_, ?_⟩, rfl, rfl⟩
    · rw [hreply, if_pos hspent]
    · intro hroom
      rw [hroom] at hspent
      cases hspent
  | false =>
    have hissued : y.issue size b reused = (.ok y.blobIds.nextId.1, Exchange.note { y with
        blobIds := y.blobIds.nextId.2
        registry := y.registry.register y.blobIds.nextId.1 b.emptied }
          (.constructed y.blobIds.nextId.1 size b.capacity reused)) := by
      unfold Exchange.issue
      rw [hspent]
      rfl
    rw [hissued] at hreply hexchange
    rw [hexchange]
    rw [hids] at hspent hreply
    refine ⟨⟨large, ?_, ?_⟩, rfl, rfl⟩
    · rw [hreply, hspent]
      rfl
    · intro _
      unfold bufferOf
      rw [hexchange, ← hids]
      simp [Exchange.note, Registry.register]

/-- In every session a blob is constructed in the best fit. -/
theorem constructs_in_best_fit (settings : Settings) (supplier : Supplier)
    (adequate : supplier.Adequate) (moves : List Move) (size : Nat) (others : Interference) :
    let s := (start settings supplier).run moves
    s.ChoosesBest size others (s.step others (.construct size)) := by
  intro s
  have hx : s.exchange.InOrder .empty := inOrder_run settings supplier moves
  have hs : s.Consistent := consistent_run settings supplier moves
  have hsupplier : s.exchange.supplier = supplier := (fixed_run settings supplier moves).2
  obtain ⟨hreply, hexchange⟩ := construct_eq s size others
  refine ⟨?_, ?_, ?_, ?_⟩
  · -- an idle buffer fits
    intro h b hbest
    obtain ⟨y, hy, hidle, hissue⟩ := hx.construct_of_some hbest
    obtain ⟨_, hbackstage⟩ := hy.backstage
    have hlarge := (bestFit_mem hbest).2
    obtain ⟨hbuilt, hrequests, hpool⟩ := builtIn_of_issue
      (y := { y with counters := y.counters.hit }) hbackstage.blobIds hlarge hissue
    refine ⟨hbuilt, hrequests.trans hy.requests, ?_⟩
    show (s.construct size others).2.exchange.pool.idle = _
    rw [hpool]
    exact hidle
  · -- none fits, and the supplier gives a buffer
    intro hnone b hgiven
    obtain ⟨y, hy, hidle, hissue⟩ := hx.construct_of_none hnone
    obtain ⟨_, hbackstage⟩ := hy.backstage
    have hlarge := adequate _ size b (hsupplier ▸ hgiven)
    simp only [hgiven] at hissue
    obtain ⟨hbuilt, hrequests, hpool⟩ := builtIn_of_issue
      (y := { y with requests := y.requests ++ [size], counters := y.counters.miss b.capacity })
      hbackstage.blobIds hlarge hissue
    refine ⟨hbuilt, hrequests.trans (congrArg (· ++ [size]) hy.requests), ?_⟩
    show (s.construct size others).2.exchange.pool.idle = _
    rw [hpool]
    exact hidle
  · -- none fits, and the supplier fails
    intro hnone halt hrefused
    obtain ⟨y, hy, hidle, hfailed⟩ := hx.construct_of_none hnone
    obtain ⟨_, hbackstage⟩ := hy.backstage
    simp only [hrefused] at hfailed
    rw [hfailed] at hreply hexchange
    simp only at hreply hexchange
    refine ⟨⟨hreply, ?_, ?_, ?_, ?_, ?_, ?_⟩, ?_, ?_⟩
    · exact (congrArg Exchange.blobIds hexchange).trans hbackstage.blobIds
    · exact (congrArg Exchange.registry hexchange).trans hbackstage.registry
    · exact writers_construct (congrArg Prod.fst hfailed)
    · exact (congrArg (fun x => x.counters.hits) hexchange).trans
        (congrArg Counters.hits hy.counters)
    · exact (congrArg (fun x => x.counters.misses) hexchange).trans
        (congrArg Counters.misses hy.counters)
    · exact (congrArg (fun x => x.counters.disposals) hexchange).trans
        (congrArg Counters.disposals hy.counters)
    · exact (congrArg Exchange.requests hexchange).trans (congrArg (· ++ [size]) hy.requests)
    · exact (congrArg (fun x => x.pool.idle) hexchange).trans hidle
  · have hacts := acts_step hs others (.construct size) False.elim
    have hafter := hacts.keep (P := fun a => a.1.InOrder a.2) (fun _ _ ha h => ha.act h) hx
    exact hafter.findable

/-- Three blobs end, the largest first. -/
def threeIdle : List Move :=
  [⟨.construct 8, .absent⟩, ⟨.construct 4, .absent⟩, ⟨.construct 4, .absent⟩,
    ⟨.finishWriter 0, .absent⟩, ⟨.finishWriter 1, .absent⟩, ⟨.finishWriter 2, .absent⟩]

/-- Of two equally small buffers a blob gets the one that came back first. -/
theorem older_of_two_smallest :
    let s := (start Settings.standard (.exact .standard)).run threeIdle
    (Supplier.exact .standard).Adequate ∧
      bestFit 3 (s.exchange.idleAmid .absent) = some (⟨1, 0⟩, ⟨[], 4, .standard⟩) ∧
      s.ChoosesBest 3 .absent (s.step .absent (.construct 3)) :=
  ⟨.exact .standard, by decide,
    constructs_in_best_fit Settings.standard (.exact .standard) (.exact .standard) threeIdle 3
      .absent⟩

end Session

end BlobExchange
