import BlobExchange.Proofs.Acts
import BlobExchange.Proofs.AlikeExchanges
import BlobExchange.Proofs.BestFit
/-! # Idle buffers in the order in which they came back

The shelf ranks idle buffers of one capacity by age (`Ranks`), and every act keeps this
(`InOrder.act`). -/

namespace BlobExchange

/-! ## Lists with distinct keys -/

section Keys

variable {α κ : Type} [DecidableEq κ] {f : α → κ} {l : List α} {a : α}

theorem filter_key (distinct : (l.map f).Nodup) (ha : a ∈ l) :
    l.filter (fun c => decide (f c = f a)) = [a] := by
  apply List.perm_singleton.1
  rw [List.perm_ext_iff_of_nodup (distinct.of_map.filter _) (List.nodup_singleton _)]
  intro c
  rw [List.mem_filter, List.mem_singleton, decide_eq_true_iff]
  constructor
  · rintro ⟨hc, heq⟩
    exact List.inj_on_of_nodup_map distinct hc ha heq
  · rintro rfl
    exact ⟨ha, rfl⟩

/-- Beside a member there are those with other keys. -/
theorem perm_cons_filter_key (distinct : (l.map f).Nodup) (ha : a ∈ l) :
    l.Perm (a :: l.filter fun c => decide (f c ≠ f a)) := by
  have hsplit := (List.filter_append_perm (fun c => decide (f c = f a)) l).symm
  rw [filter_key distinct ha, List.singleton_append] at hsplit
  simpa only [decide_not] using hsplit

end Keys

namespace Pool

variable {p q : Pool} {h : Handle} {b : Buffer}

/-- The idle buffers with their handles, the longest idle first. -/
def idle (p : Pool) : List (Handle × Buffer) :=
  p.liveOrder.filterMap fun h => (p.claimed? h).map fun b => (h, b)

/-- No buffer is missing from the list of the idle ones. -/
def Complete (p : Pool) : Prop := ∀ h b, p.claimed? h = some b → (h, b) ∈ p.idle

theorem claimed?_of_idle (hm : (h, b) ∈ p.idle) : p.claimed? h = some b := by
  obtain ⟨j, -, hj⟩ := List.mem_filterMap.1 hm
  rw [Option.map_eq_some_iff] at hj
  obtain ⟨c, hc, heq⟩ := hj
  cases heq
  exact hc

theorem Complete.mem_idle (hp : p.Complete) : (h, b) ∈ p.idle ↔ p.claimed? h = some b :=
  ⟨claimed?_of_idle, hp h b⟩

theorem claimed?_of_core (hpq : p.core = q.core) : p.claimed? = q.claimed? :=
  show p.core.claimed? = q.core.claimed? by rw [hpq]

theorem Alike.idle (hpq : p.Alike q) : p.idle = q.idle := by
  unfold Pool.idle
  rw [hpq.order, claimed?_of_core hpq.core]

/-- A pool that dwindles has lost those idle buffers whose handles are dead. -/
theorem idle_of_dwindles (hpq : p.Dwindles q)
    (hclaimed : ∀ j, q.claimed? j = none ∨ q.claimed? j = p.claimed? j) :
    q.idle = p.idle.filter fun e => q.isLive e.1 := by
  have horder : q.liveOrder = p.liveOrder.filter q.isLive :=
    hpq.order.trans (hpq.filter_filter (fun j => j) p.order).symm
  unfold Pool.idle
  rw [horder, List.filterMap_filter, List.filter_filterMap]
  apply List.filterMap_congr
  intro j _
  unfold isLive
  rcases hclaimed j with hnone | hsame
  · rw [hnone]
    cases p.claimed? j <;> simp [Option.filter, hnone]
  · rw [hsame]
    cases hb : p.claimed? j <;> simp [Option.filter, hsame, hb]

/-! ## Losing buffers -/

/-- What becomes of the idle buffers when some are lost: the others stay, in their order. -/
structure Loses (p q : Pool) (lost : List Handle) : Prop where
  idle : q.idle = p.idle.filter fun e => decide (e.1 ∉ lost)
  claimed : ∀ j, q.claimed? j = if j ∈ lost then none else p.claimed? j

/-- A pool that dwindles loses the buffers that are no longer claimed. -/
theorem Loses.of_dwindles {lost : List Handle} (hpq : p.Dwindles q)
    (claimed : ∀ j, q.claimed? j = if j ∈ lost then none else p.claimed? j) : p.Loses q lost := by
  refine ⟨?_, claimed⟩
  have hidle : q.idle = p.idle.filter fun e => q.isLive e.1 := by
    apply idle_of_dwindles hpq
    intro j
    rw [claimed j]
    split
    · exact Or.inl rfl
    · exact Or.inr rfl
  rw [hidle]
  apply List.filter_congr
  rintro ⟨j, b⟩ hm
  have hj : p.claimed? j = some b := claimed?_of_idle hm
  unfold isLive
  rw [claimed j]
  by_cases hlost : j ∈ lost <;> simp [hlost, hj]

theorem Loses.take (ht : p.take h = some (b, q)) : p.Loses q [h] := by
  apply Loses.of_dwindles (.take ht)
  intro j
  rw [claimed?_take ht]
  simp

theorem claimed?_surrenderAll (p : Pool) (lost : List Handle) (j : Handle) :
    (p.surrenderAll lost).claimed? j = if j ∈ lost then none else p.claimed? j := by
  unfold surrenderAll
  -- one handle after the other dies, and each leaves the others as they were
  induction lost generalizing p with
  | nil => rfl
  | cons h rest ih =>
    have hfirst : (p.surrender h).claimed? j = if j = h then none else p.claimed? j := by
      unfold surrender
      cases ht : p.take h with
      | none =>
        by_cases hj : j = h
        · rw [if_pos hj, hj]
          exact take_eq_none_iff.1 ht
        · rw [if_neg hj]
      | some taken => exact claimed?_take ht j
    rw [List.foldl_cons, ih, hfirst]
    by_cases hrest : j ∈ rest
    · simp [hrest]
    · simp [hrest]

/-- What others do loses their casualties. -/
theorem Loses.sufferAll (p : Pool) (deeds : List Reclamation) :
    p.Loses (p.sufferAll deeds) (p.losses deeds) := by
  apply Loses.of_dwindles (.sufferAll p deeds)
  intro j
  rw [claimed?_of_core (alike_sufferAll p deeds).core]
  exact claimed?_surrenderAll p _ j

theorem Loses.refl (p : Pool) : p.Loses p [] := Loses.sufferAll p []

theorem filter_lost_none (idle : List (Handle × Buffer)) :
    idle.filter (fun e => decide (e.1 ∉ ([] : List Handle))) = idle := by
  apply List.filter_eq_self.2
  intro e _
  simp

theorem Loses.complete {lost : List Handle} (hpq : p.Loses q lost) (hp : p.Complete) :
    q.Complete := by
  intro j b hj
  rw [hpq.claimed] at hj
  split at hj
  · cases hj
  · rename_i hkept
    rw [hpq.idle, List.mem_filter]
    exact ⟨hp j b hj, decide_eq_true hkept⟩

theorem idle_take (hp : p.Complete) (distinct : (p.idle.map Prod.fst).Nodup)
    (ht : p.take h = some (b, q)) : p.idle.Perm ((h, b) :: q.idle) := by
  have hsplit := perm_cons_filter_key distinct (hp h b (claimed?_of_take ht))
  rw [(Loses.take ht).idle]
  simpa using hsplit

/-- A parked buffer has been idle for the shortest time. -/
theorem idle_park (hp : p.Sound) (b : Buffer) : (p.park b).2.idle = p.idle ++ [(p.vacancy, b)] := by
  have hnew : (p.park b).2.claimed? p.vacancy = some b := by
    rw [hp.claimed?_park, if_pos rfl]
  have hold : ∀ j ∈ p.liveOrder, (p.park b).2.claimed? j = p.claimed? j := by
    intro j hj
    rw [hp.claimed?_park, if_neg]
    rintro rfl
    have hlive := (List.mem_filter.1 hj).2
    rw [isLive_eq_false_iff.2 hp.claimed?_vacancy] at hlive
    cases hlive
  unfold Pool.idle
  rw [liveOrder_park hp, List.filterMap_append]
  congr 1
  · apply List.filterMap_congr
    intro j hj
    rw [hold j hj]
  · simp only [List.filterMap_cons, List.filterMap_nil, hnew, Option.map_some]

theorem complete_park (hp : p.Sound) (hc : p.Complete) (b : Buffer) : (p.park b).2.Complete := by
  intro j c hj
  rw [hp.claimed?_park] at hj
  rw [idle_park hp, List.mem_append]
  split at hj
  · rename_i heq
    cases hj
    rw [heq]
    exact Or.inr (List.mem_singleton.2 rfl)
  · exact Or.inl (hc j c hj)

end Pool

/-! ## Ranks -/

/-- The entries rank idle buffers by age and list them under their capacities. -/
structure Ranks (entries : List (ShelfKey × Handle)) (idle : List (Handle × Buffer)) : Prop where
  distinct : (idle.map Prod.fst).Nodup
  ranked : idle.Pairwise fun d e => ∀ k l, (k, d.1) ∈ entries → (l, e.1) ∈ entries →
    k.insertion < l.insertion
  sized : ∀ e ∈ idle, ∀ k, (k, e.1) ∈ entries → k.capacity = e.2.capacity

namespace Ranks

variable {entries fewer : List (ShelfKey × Handle)} {idle less : List (Handle × Buffer)}
  {key : ShelfKey} {h : Handle} {b : Buffer}

theorem lessen (hr : Ranks entries idle) (hentries : fewer ⊆ entries) (hidle : less.Sublist idle) :
    Ranks fewer less := by
  refine ⟨hr.distinct.sublist (hidle.map _), ?_, ?_⟩
  · apply (hr.ranked.sublist hidle).imp
    intro d e hde k l hk hl
    exact hde k l (hentries hk) (hentries hl)
  · intro e he k hk
    exact hr.sized e (hidle.subset he) k (hentries hk)

/-- A buffer that is parked has no entry yet. -/
theorem park (hr : Ranks entries idle) (new : ∀ e ∈ idle, e.1 ≠ h)
    (loose : ∀ k, (k, h) ∉ entries) : Ranks entries (idle ++ [(h, b)]) := by
  refine ⟨?_, ?_, ?_⟩
  · rw [List.map_append, List.map_singleton]
    apply List.Nodup.append hr.distinct (List.nodup_singleton h)
    intro j hj hh
    obtain ⟨e, he, rfl⟩ := List.mem_map.1 hj
    exact new e he (List.mem_singleton.1 hh)
  · rw [List.pairwise_append]
    refine ⟨hr.ranked, List.pairwise_singleton _ _, ?_⟩
    intro d _ e he k l _ hl
    rw [List.mem_singleton.1 he] at hl
    exact absurd hl (loose l)
  · intro e he k hk
    rcases List.mem_append.1 he with he | he
    · exact hr.sized e he k hk
    · rw [List.mem_singleton.1 he] at hk
      exact absurd hk (loose k)

/-- The buffer that came back last is shelved last. -/
theorem shelve {more : List (ShelfKey × Handle)} (hr : Ranks entries idle)
    (hmore : ∀ e, e ∈ more ↔ e = (key, h) ∨ e ∈ entries) (loose : ∀ k, (k, h) ∉ entries)
    (older : ∀ e ∈ entries, e.1.insertion < key.insertion)
    (last : ∃ others, (∀ d ∈ others, d.1 ≠ h) ∧ (idle = others ∨ idle = others ++ [(h, b)]))
    (hkey : key.capacity = b.capacity) : Ranks more idle := by
  obtain ⟨others, hothers, hidle⟩ := last
  -- the entries of all but the last are those that they had before
  have hsame : ∀ d ∈ others, ∀ k, (k, d.1) ∈ more → (k, d.1) ∈ entries := by
    intro d hd k hk
    rcases (hmore _).1 hk with heq | hk
    · exact absurd (congrArg Prod.snd heq) (hothers d hd)
    · exact hk
  have hlast : ∀ k, (k, h) ∈ more → k = key := by
    intro k hk
    rcases (hmore _).1 hk with heq | hk
    · exact congrArg Prod.fst heq
    · exact absurd hk (loose k)
  have hfront : others.Sublist idle := by
    rcases hidle with rfl | rfl
    · exact List.Sublist.refl _
    · exact List.sublist_append_left _ _
  have hranked : others.Pairwise fun d e => ∀ k l, (k, d.1) ∈ more → (l, e.1) ∈ more →
      k.insertion < l.insertion := by
    apply (hr.ranked.sublist hfront).imp_of_mem
    intro d e hd he hde k l hk hl
    exact hde k l (hsame d hd k hk) (hsame e he l hl)
  have hsized : ∀ e ∈ others, ∀ k, (k, e.1) ∈ more → k.capacity = e.2.capacity := fun e he k hk =>
    hr.sized e (hfront.subset he) k (hsame e he k hk)
  refine ⟨hr.distinct, ?_, ?_⟩
  · rcases hidle with rfl | rfl
    · exact hranked
    · rw [List.pairwise_append]
      refine ⟨hranked, List.pairwise_singleton _ _, ?_⟩
      intro d hd e he k l hk hl
      rw [List.mem_singleton.1 he] at hl
      rw [hlast l hl]
      exact older _ (hsame d hd k hk)
  · intro e he k hk
    have hcases : e ∈ others ∨ e = (h, b) := by
      rcases hidle with rfl | rfl
      · exact Or.inl he
      · rcases List.mem_append.1 he with he | he
        · exact Or.inl he
        · exact Or.inr (List.mem_singleton.1 he)
    rcases hcases with he | rfl
    · exact hsized e he k hk
    · rw [hlast k hk]
      exact hkey

end Ranks

/-! ## What every act keeps -/

/-- The handle of a buffer that is in the pool and not on the shelf. -/
def Hand.loose : Hand → Option Handle
  | .parked _ _ h => some h
  | _ => none

namespace Exchange

/-- The shelf ranks all idle buffers by age and capacity. Only a buffer that is in hand may not have
its entry yet, and then no other came back later. -/
structure InOrder (x : Exchange) (hand : Hand) : Prop where
  sync : x.InSync [] hand.loose
  complete : x.pool.Complete
  ranks : Ranks x.shelf.entries x.pool.idle
  last : ∀ id b h, hand = .parked id b h → ∃ others, (∀ d ∈ others, d.1 ≠ h) ∧
    (x.pool.idle = others ∨ x.pool.idle = others ++ [(h, b)])

variable {x y : Exchange} {hand : Hand}

theorem pool_acknowledge (x : Exchange) (reports : List Handle) :
    (x.acknowledge reports).pool = x.pool := by
  induction reports generalizing x with
  | nil => rfl
  | cons h rest ih =>
    unfold acknowledge
    split
    · exact ih _
    · rfl

theorem pool_catchUp (x : Exchange) (others : Interference) :
    (x.catchUp others).pool = x.pool.fetch.2.sufferAll (others.afterFetch x.pool.reports) := by
  unfold catchUp fetchAmid
  rw [pool_acknowledge, pool_amid, pool_fetch]
  rfl

/-- Catching up loses what others reclaim meanwhile. -/
theorem loses_catchUp (x : Exchange) (others : Interference) :
    x.pool.Loses (x.catchUp others).pool (x.blow others) := by
  have hlost := Pool.Loses.sufferAll x.pool.fetch.2 (others.afterFetch x.pool.reports)
  rw [pool_catchUp]
  exact ⟨hlost.idle, hlost.claimed⟩

theorem entries_acknowledge (x : Exchange) (reports : List Handle) :
    (x.acknowledge reports).shelf.entries ⊆ x.shelf.entries := by
  induction reports generalizing x with
  | nil => exact List.Subset.refl _
  | cons h rest ih =>
    unfold acknowledge
    split
    · rename_i shelf hshelf
      apply List.Subset.trans (ih _)
      rcases Shelf.acknowledge_cases hshelf with ⟨key, -, rfl⟩ | ⟨-, -, rfl⟩
      · exact List.filter_sublist.subset
      · exact List.Subset.refl _
    · exact List.Subset.refl _

theorem entries_catchUp (x : Exchange) (others : Interference) :
    (x.catchUp others).shelf.entries ⊆ x.shelf.entries := by
  have hfetch : x.fetch.2.shelf = x.shelf := by
    simp only [fetch]
    split <;> rfl
  have hacknowledged := entries_acknowledge (x.fetchAmid others).2 (x.fetchAmid others).1
  rw [fetchAmid, shelf_amid, hfetch] at hacknowledged
  exact hacknowledged

theorem entries_takeIdle (x : Exchange) (size : Nat) :
    (x.takeIdle size).2.shelf.entries ⊆ x.shelf.entries := by
  obtain ⟨tried, -, hbefore, hafter⟩ := Shelf.entries_pick x.shelf size Pool.upgrade x.pool
  intro e he
  change e ∈ (x.shelf.pick size Pool.upgrade x.pool).2.entries at he
  rw [hafter, List.mem_append] at he
  rw [hbefore, List.mem_append, List.mem_append]
  exact he.imp_left Or.inl

/-- A search loses the buffer that it finds. -/
theorem loses_takeIdle (x : Exchange) (size : Nat) :
    x.pool.Loses (x.takeIdle size).2.pool
      ((x.shelf.fit size x.pool).toList.map Hit.handle) := by
  show x.pool.Loses (x.shelf.pick size Pool.upgrade x.pool).1.state _
  rcases Shelf.state_pick x.shelf size x.pool with ⟨hnone, hstate⟩ | ⟨hit, hsome, taken⟩
  · rw [hnone, hstate]
    exact .refl x.pool
  · rw [hsome]
    exact .take taken

namespace InOrder

theorem assemble (settings : Settings) (supplier : Supplier) :
    (Exchange.assemble settings supplier).InOrder .empty where
  sync := .assemble settings supplier
  complete := by
    intro h b hb
    change Pool.empty.claimed? h = some b at hb
    simp [Pool.claimed?, Pool.empty] at hb
  ranks := ⟨List.nodup_nil, List.Pairwise.nil, fun e he => absurd he List.not_mem_nil⟩
  last := fun _ _ _ h => by cases h

/-- Buffers may be lost and entries taken off the shelf. -/
theorem lose (hx : x.InOrder hand) (sync : y.InSync [] hand.loose) {lost : List Handle}
    (hpool : x.pool.Loses y.pool lost) (hentries : y.shelf.entries ⊆ x.shelf.entries) :
    y.InOrder hand := by
  have hidle := hpool.idle
  refine ⟨sync, hpool.complete hx.complete, ?_, ?_⟩
  · rw [hidle]
    exact hx.ranks.lessen hentries List.filter_sublist
  · intro id b h hh
    obtain ⟨others, hothers, hcases⟩ := hx.last id b h hh
    -- the one that came back last may be lost itself, which `last` allows
    refine ⟨others.filter fun e => decide (e.1 ∉ lost), ?_, ?_⟩
    · intro d hd
      exact hothers d (List.mem_of_mem_filter hd)
    · rw [hidle]
      rcases hcases with hsame | hsame
      · rw [hsame]
        exact Or.inl rfl
      · rw [hsame, List.filter_append]
        by_cases hlost : h ∈ lost
        · simp [hlost]
        · simp [hlost]

/-- Empty-handed or not, only pool and shelf have a say in it. -/
theorem same (hx : x.InOrder hand) {hand' : Hand} (sync : y.InSync [] hand'.loose)
    (pool : y.pool = x.pool) (shelf : y.shelf = x.shelf)
    (unparked : ∀ id b h, hand' ≠ .parked id b h) : y.InOrder hand' := by
  refine ⟨sync, ?_, ?_, ?_⟩
  · rw [pool]
    exact hx.complete
  · rw [pool, shelf]
    exact hx.ranks
  · intro id b h hh
    exact absurd hh (unparked id b h)

theorem pool_sound (hx : x.InOrder hand) : x.pool.Sound := by
  obtain ⟨_, -, ht⟩ := hx.sync.tracks
  exact ht.pool

/-- A handle that is loose has no entry. -/
theorem no_entry {h : Handle} {due : List Handle} (hx : x.InSync due (some h)) (k : ShelfKey) :
    (k, h) ∉ x.shelf.entries := by
  obtain ⟨_, -, ht⟩ := hx.tracks
  intro hk
  exact (ht.alone h rfl).1 ⟨k, (ht.shelf.inverse k h).1 hk⟩

theorem park {id : BlobId} {b : Buffer} (hx : x.InOrder (.ended id b)) :
    { x with pool := (x.pool.park b).2 }.InOrder (.parked id b (x.pool.park b).1) := by
  have hsound := hx.pool_sound
  have hsync := hx.sync.park b
  have hnew : ∀ d ∈ x.pool.idle, d.1 ≠ x.pool.vacancy := by
    rintro ⟨j, c⟩ hd rfl
    have hclaimed := Pool.claimed?_of_idle hd
    rw [hsound.claimed?_vacancy] at hclaimed
    cases hclaimed
  have hidle := Pool.idle_park hsound b
  refine ⟨hsync, Pool.complete_park hsound hx.complete b, ?_, ?_⟩
  · show Ranks x.shelf.entries (x.pool.park b).2.idle
    have hentry := no_entry hsync
    rw [hidle]
    exact hx.ranks.park hnew hentry
  · intro id' c h hh
    cases hh
    exact ⟨x.pool.idle, hnew, Or.inr hidle⟩

theorem shelve {id : BlobId} {b : Buffer} {h : Handle} (hx : x.InOrder (.parked id b h)) :
    (Exchange.note { x.shelve b.capacity h with counters := x.counters.disposal }
      (.disposed id b.capacity)).InOrder .empty := by
  have hloose := hx.sync
  have hfresh := hloose.key_new b.capacity
  have hshelved := hloose.shelve b.capacity
  refine ⟨?_, hx.complete, ?_, fun _ _ _ h => by cases h⟩
  · refine InSync.note ?_ _ rfl
    exact hshelved.congr rfl rfl rfl rfl rfl
  · exact hx.ranks.shelve (Shelf.mem_place hfresh) (no_entry hloose) hloose.numbered
      (hx.last id b h rfl) rfl

theorem act {orderly : Prop} {a b : Exchange × Hand} (ha : a.1.InOrder a.2) (h : Act orderly a b) :
    b.1.InOrder b.2 := by
  have hsync := ha.sync
  cases h with
  | note e unread quiet => exact ha.same (hsync.note e unread) rfl rfl (fun _ _ _ h => by cases h)
  | @strike x hand deeds =>
    have hlost : x.pool.Loses (x.amid deeds).pool (x.pool.losses deeds) := by
      rw [pool_amid]
      exact .sufferAll x.pool deeds
    apply ha.lose (hsync.amid deeds) hlost
    rw [shelf_amid]
    exact List.Subset.refl _
  | @reclaim x keep =>
    exact ha.lose (hsync.reclaimDownTo keep) (.sufferAll x.pool [.downTo keep])
      (List.Subset.refl _)
  | @catchUp x others =>
    exact ha.lose (hsync.catchUp others) (loses_catchUp x others) (entries_catchUp x others)
  | @find x b size found =>
    have htaken := ha.lose (hsync.takeIdle size) (loses_takeIdle x size) (entries_takeIdle x size)
    refine htaken.same ?_ rfl rfl (fun _ _ _ h => by cases h)
    exact htaken.sync.congr rfl rfl rfl rfl rfl
  | @miss x size missed =>
    exact ha.lose (hsync.takeIdle size) (loses_takeIdle x size) (entries_takeIdle x size)
  | supply size supplied =>
    exact ha.same (hsync.congr rfl rfl rfl rfl rfl) rfl rfl (fun _ _ _ h => by cases h)
  | refuse size refused =>
    exact ha.same (hsync.congr rfl rfl rfl rfl rfl) rfl rfl (fun _ _ _ h => by cases h)
  | issue room unissued =>
    exact ha.same (hsync.congr rfl rfl rfl rfl rfl) rfl rfl (fun _ _ _ h => by cases h)
  | lose spent allowed => exact ha.same hsync rfl rfl (fun _ _ _ h => by cases h)
  | hold left active held =>
    exact ha.same (hsync.congr rfl rfl rfl rfl rfl) rfl rfl (fun _ _ _ h => by cases h)
  | write active there written =>
    exact ha.same (hsync.congr rfl rfl rfl rfl rfl) rfl rfl (fun _ _ _ h => by cases h)
  | withdraw active there =>
    exact ha.same (hsync.congr rfl rfl rfl rfl rfl) rfl rfl (fun _ _ _ h => by cases h)
  | park => exact ha.park
  | shelve => exact ha.shelve

end InOrder

end Exchange

theorem Session.inOrder_run (settings : Settings) (supplier : Supplier) (moves : List Move) :
    ((start settings supplier).run moves).exchange.InOrder .empty :=
  run_acts (P := fun a => a.1.InOrder a.2) (Exchange.InOrder.assemble settings supplier)
    (fun _ _ ha h => ha.act h) moves

end BlobExchange
