import BlobExchange.Proofs.BestFit
/-! # Trials along the shelf

Whoever upgrades handles may remember each trial, so a search is described by the states that the
trials lead through (`Tries`). -/

namespace BlobExchange.Shelf

variable {s t : Shelf} {key : ShelfKey} {h j : Handle}

/-! ## What becomes of a shelf -/

/-- A shelf that was empty once. New handles came in under new keys, whoever searched it upgraded as
they liked, and reports were acknowledged. -/
inductive Reachable : Shelf → Prop where
  | empty : Reachable empty
  | insert {s : Shelf} (hs : Reachable s) {key : ShelfKey} {handle : Handle}
      (newKey : ∀ e ∈ s.entries, e.1 ≠ key) (unheld : ¬ s.Holds handle)
      (unawaited : handle ∉ s.awaited) : Reachable (s.insert key handle)
  | pick {s : Shelf} (hs : Reachable s) (least : Nat) {α σ : Type}
      (upgrade : σ → Handle → Option α × σ) (state : σ) : Reachable (s.pick least upgrade state).2
  | acknowledge {s t : Shelf} (hs : Reachable s) {handle : Handle}
      (ht : s.acknowledge handle = some t) : Reachable t

/-- A sound shelf that awaits what it does not hold, each handle once. -/
structure Tidy (s : Shelf) : Prop where
  sound : s.Sound
  apart : ∀ h, s.Holds h → h ∉ s.awaited
  once : s.awaited.Nodup

/-- Handles that are not awaited yet are awaited from now on. -/
theorem await_eq {awaited handles : List Handle} (nodup : (awaited ++ handles).Nodup) :
    await awaited handles = awaited ++ handles := by
  unfold await
  induction handles generalizing awaited with
  | nil => simp
  | cons h rest ih =>
    have hnew : h ∉ awaited := by
      intro hm
      exact (List.nodup_append.1 nodup).2.2 h hm h List.mem_cons_self rfl
    have hassoc : awaited ++ [h] ++ rest = awaited ++ h :: rest := by simp
    rw [List.foldl_cons, if_neg hnew, ih (by rw [hassoc]; exact nodup), hassoc]

theorem Sound.nodup_tried {α σ : Type} (hs : s.Sound) (least : Nat)
    (upgrade : σ → Handle → Option α × σ) (state : σ) :
    (s.pick least upgrade state).1.tried.Nodup := by
  obtain ⟨tried, htried, hbefore, -⟩ := entries_pick s least upgrade state
  have hnodup := hs.nodup_handles
  rw [hbefore, List.map_append, List.map_append, htried] at hnodup
  exact (List.nodup_append.1 (List.nodup_append.1 hnodup).1).2.1

namespace Tidy

theorem empty : Tidy empty :=
  ⟨sound_empty, fun _ _ => List.not_mem_nil, List.nodup_nil⟩

theorem insert (hs : s.Tidy) (newKey : ∀ e ∈ s.entries, e.1 ≠ key) (unheld : ¬ s.Holds h)
    (unawaited : h ∉ s.awaited) : (s.insert key h).Tidy := by
  refine ⟨hs.sound.insert newKey unheld, ?_, hs.once⟩
  intro j hj
  rcases (holds_insert s key h j).1 hj with rfl | hj
  · exact unawaited
  · exact hs.apart j hj

theorem acknowledge (hs : s.Tidy) (ht : s.acknowledge h = some t) : t.Tidy := by
  refine ⟨hs.sound.acknowledge ht, ?_, ?_⟩
  · intro j hj hawaited
    have hheld := (holds_acknowledge ht j).1 hj
    exact hs.apart j hheld.1 ((mem_awaited_acknowledge ht (hs.apart h) j).1 hawaited).1
  · rcases acknowledge_cases ht with ⟨key, -, rfl⟩ | ⟨-, -, rfl⟩
    · exact hs.once
    · exact hs.once.filter _

section Search

variable {α σ : Type} (least : Nat) (upgrade : σ → Handle → Option α × σ) (state : σ)

/-- The stale entries of a search were held, so they are awaited only from now on. -/
theorem awaited_pick (hs : s.Tidy) :
    (s.pick least upgrade state).2.awaited =
        s.awaited ++ (s.pick least upgrade state).1.stale.map Prod.snd ∧
      (s.pick least upgrade state).2.awaited.Nodup := by
  have hnodup :
      (s.awaited ++ (s.pick least upgrade state).1.stale.map Prod.snd).Nodup := by
    refine List.nodup_append.2 ⟨hs.once, ?_, ?_⟩
    · exact (List.nodup_append.1 (hs.sound.nodup_tried least upgrade state)).1
    · rintro j hj k hk rfl
      exact hs.apart j (hs.sound.holds_of_tried (List.mem_append_left _ hk)) hj
  have hawaited := await_eq hnodup
  refine ⟨hawaited, ?_⟩
  change (await s.awaited ((s.pick least upgrade state).1.stale.map Prod.snd)).Nodup
  rw [hawaited]
  exact hnodup

theorem pick (hs : s.Tidy) : (s.pick least upgrade state).2.Tidy := by
  refine ⟨hs.sound.pick least upgrade state, ?_, (hs.awaited_pick least upgrade state).2⟩
  intro j hj hawaited
  obtain ⟨hheld, hno⟩ := (holds_pick s least upgrade state j).1 hj
  rcases (mem_awaited_pick s least upgrade state j).1 hawaited with hbefore | hstale
  · exact hs.apart j hheld hbefore
  · exact hno (List.mem_append_left _ hstale)

end Search

end Tidy

theorem Reachable.tidy (hs : s.Reachable) : s.Tidy := by
  induction hs with
  | empty => exact .empty
  | insert _ newKey unheld unawaited ih => exact ih.insert newKey unheld unawaited
  | pick _ least upgrade state ih => exact ih.pick least upgrade state
  | acknowledge _ ht ih => exact ih.acknowledge ht

/-! ## One trial after the other -/

section Trials

variable {α σ : Type}

/-- The state that the trials of handles lead to. -/
def stateAfter (upgrade : σ → Handle → Option α × σ) (state : σ) (handles : List Handle) : σ :=
  handles.foldl (fun state h => (upgrade state h).2) state

/-- What a search along entries does. It tries them in order, each in the state that the trials
before it have led to; all that it passes over fail, and it stops at the first that succeeds. -/
structure Tries (upgrade : σ → Handle → Option α × σ) (entries : List (ShelfKey × Handle))
    (state : σ) (found : Search α σ) : Prop where
  order : found.stale ++ found.hit.toList.map (fun hit => (hit.key, hit.handle)) ++ found.rest =
    entries
  failed : ∀ front e back, found.stale = front ++ e :: back →
    (upgrade (stateAfter upgrade state (front.map Prod.snd)) e.2).1 = none
  succeeded : ∀ hit, found.hit = some hit →
    (upgrade (stateAfter upgrade state (found.stale.map Prod.snd)) hit.handle).1 = some hit.value
  exhausted : found.hit = none → found.rest = []
  state : found.state = stateAfter upgrade state found.tried

namespace Tries

variable {upgrade : σ → Handle → Option α × σ} {handle : Handle} {state after : σ} {value : α}
  {rest : List (ShelfKey × Handle)} {found : Search α σ}

/-- Behind a first trial that fails, the others start from the state that it leaves. -/
theorem passed (key : ShelfKey) (htrial : upgrade state handle = (none, after))
    (hlater : Tries upgrade rest after found) :
    Tries upgrade ((key, handle) :: rest) state
      { found with stale := (key, handle) :: found.stale } := by
  have hstate : ∀ handles, stateAfter upgrade state (handle :: handles) =
      stateAfter upgrade after handles := by
    intro handles
    simp only [stateAfter, List.foldl_cons, htrial]
  refine ⟨?_, ?_, ?_, hlater.exhausted, hlater.state.trans (hstate _).symm⟩
  · simp only [List.cons_append]
    exact congrArg _ hlater.order
  · intro front e back h
    cases front with
    | nil =>
      simp only [List.nil_append, List.cons.injEq] at h
      rw [← h.1]
      simp [stateAfter, htrial]
    | cons d front =>
      simp only [List.cons_append, List.cons.injEq] at h
      rw [← h.1, List.map_cons, hstate]
      exact hlater.failed front e back h.2
  · intro hit hhit
    rw [List.map_cons, hstate]
    exact hlater.succeeded hit hhit

theorem first (key : ShelfKey) (htrial : upgrade state handle = (some value, after)) :
    Tries upgrade ((key, handle) :: rest) state ⟨some ⟨key, handle, value⟩, [], rest, after⟩ := by
  refine ⟨rfl, ?_, ?_, by rintro ⟨⟩, ?_⟩
  · intro front e back h
    simp at h
  · rintro hit ⟨⟩
    simp [stateAfter, htrial]
  · simp [Search.tried, stateAfter, htrial]

end Tries

theorem tries_search (upgrade : σ → Handle → Option α × σ) (entries : List (ShelfKey × Handle))
    (state : σ) : Tries upgrade entries state (search upgrade entries state) := by
  induction entries generalizing state with
  | nil =>
    refine ⟨rfl, ?_, by rintro hit ⟨⟩, fun _ => rfl, rfl⟩
    intro front e back h
    simp [search] at h
  | cons e rest ih =>
    obtain ⟨key, handle⟩ := e
    rcases htrial : upgrade state handle with ⟨_ | value, after⟩
    · simp only [search, htrial]
      exact (ih after).passed key htrial
    · simp only [search, htrial]
      exact .first key htrial

end Trials

/-! ## What a search takes away -/

/-- What a search of a capacity makes of a shelf: it tries the entries of at least the capacity
upwards, takes those that it tried off both views, and awaits those that failed. -/
structure Takes {α σ : Type} (s : Shelf) (least : Nat) (upgrade : σ → Handle → Option α × σ)
    (state : σ) (found : Search α σ) (after : Shelf) : Prop where
  ascending : (s.entries.filter fun e => decide (least ≤ e.1.capacity)).Pairwise
    fun a b => a.1.before b.1 = true
  tries : Tries upgrade (s.entries.filter fun e => decide (least ≤ e.1.capacity)) state found
  entries : after.entries = s.entries.filter fun e => decide (e.2 ∉ found.tried)
  keys : ∀ h, after.keys.get? h = if h ∈ found.tried then none else s.keys.get? h
  awaited : after.awaited = s.awaited ++ found.stale.map Prod.snd
  size : after.size + found.tried.length = s.size

theorem filter_not_isBelow (entries : List (ShelfKey × Handle)) (least : Nat) :
    (entries.filter fun e => !isBelow least e) =
      entries.filter fun e => decide (least ≤ e.1.capacity) := by
  apply List.filter_congr
  intro e _
  unfold isBelow
  rw [← decide_not, decide_eq_decide]
  exact Nat.not_lt

theorem filter_middle {β γ : Type} [DecidableEq γ] (f : β → γ) {front middle back : List β}
    (nodup : ((front ++ middle ++ back).map f).Nodup) :
    (front ++ middle ++ back).filter (fun e => decide (f e ∉ middle.map f)) = front ++ back := by
  rw [List.map_append, List.map_append] at nodup
  obtain ⟨hfront, -, hback⟩ := List.nodup_append.1 nodup
  have houter : ∀ e, e ∈ front ∨ e ∈ back → decide (f e ∉ middle.map f) = true := by
    intro e he
    rw [decide_eq_true_iff]
    intro hm
    rcases he with he | he
    · exact (List.nodup_append.1 hfront).2.2 _ (List.mem_map_of_mem he) _ hm rfl
    · exact hback _ (List.mem_append_right _ hm) _ (List.mem_map_of_mem he) rfl
  rw [List.filter_append, List.filter_append, List.filter_eq_self.2 fun e he => houter e (.inl he),
    List.filter_eq_self.2 fun e he => houter e (.inr he)]
  have hmiddle : middle.filter (fun e => decide (f e ∉ middle.map f)) = [] := by
    rw [List.filter_eq_nil_iff]
    intro e he
    simpa using ⟨e, he, rfl⟩
  rw [hmiddle, List.append_nil]

theorem Tidy.takes {α σ : Type} (hs : s.Tidy) (least : Nat)
    (upgrade : σ → Handle → Option α × σ) (state : σ) :
    Takes s least upgrade state (s.pick least upgrade state).1 (s.pick least upgrade state).2 := by
  obtain ⟨tried, htried, hbefore, hafter⟩ := entries_pick s least upgrade state
  have hcandidates : s.entries.dropWhile (isBelow least) =
      s.entries.filter fun e => decide (least ≤ e.1.capacity) := by
    rw [dropWhile_isBelow hs.sound.sorted, filter_not_isBelow]
  refine ⟨hs.sound.sorted.filter _, ?_, ?_, get?_pick s least upgrade state,
    (hs.awaited_pick least upgrade state).1, ?_⟩
  · rw [← hcandidates]
    exact tries_search upgrade _ state
  · have hnodup := hs.sound.nodup_handles
    rw [hbefore] at hnodup
    calc (s.pick least upgrade state).2.entries
        = s.entries.takeWhile (isBelow least) ++ (s.pick least upgrade state).1.rest := hafter
      _ = (s.entries.takeWhile (isBelow least) ++ tried ++
            (s.pick least upgrade state).1.rest).filter
              (fun e => decide (e.2 ∉ tried.map Prod.snd)) := (filter_middle Prod.snd hnodup).symm
      _ = s.entries.filter fun e => decide (e.2 ∉ (s.pick least upgrade state).1.tried) := by
          rw [← hbefore, htried]
  · have hlength := congrArg List.length hbefore
    have hcount := congrArg List.length htried
    unfold size
    simp only [hafter, List.length_append, List.length_map] at hlength hcount ⊢
    omega

/-! ## Reports -/

/-- The shelf after a report. If the report is refused, it is as it was. -/
def reported (s : Shelf) (h : Handle) : Shelf := (s.acknowledge h).getD s

/-- What a report makes of a shelf: it is acknowledged if its handle is held or awaited, and then
just this handle goes, from wherever it is. -/
structure Forgets (s : Shelf) (h : Handle) : Prop where
  known : (∃ t, s.acknowledge h = some t) ↔ s.Holds h ∨ h ∈ s.awaited
  refused : s.acknowledge h = none → s.reported h = s
  entries : (s.reported h).entries = s.entries.filter fun e => decide (e.2 ≠ h)
  keys : ∀ j, (s.reported h).keys.get? j = if j = h then none else s.keys.get? j
  awaited : (s.reported h).awaited = s.awaited.filter fun j => decide (j ≠ h)

namespace Tidy

/-- A key belongs to one handle, so that to drop the key is to drop the handle. -/
theorem filter_key (hs : s.Tidy) (hk : s.keys.get? h = some key) :
    (s.entries.filter fun e => decide (e.1 ≠ key)) =
      s.entries.filter fun e => decide (e.2 ≠ h) := by
  apply List.filter_congr
  rintro ⟨k, j⟩ he
  rw [decide_eq_decide]
  apply not_congr
  constructor
  · rintro rfl
    exact hs.sound.handle_eq he ((hs.sound.inverse _ h).2 hk)
  · rintro rfl
    have hkey := (hs.sound.inverse k j).1 he
    rw [hk, Option.some.injEq] at hkey
    exact hkey.symm

theorem filter_unheld (hs : s.Tidy) (hk : s.keys.get? h = none) :
    (s.entries.filter fun e => decide (e.2 ≠ h)) = s.entries := by
  rw [List.filter_eq_self]
  rintro ⟨k, j⟩ he
  rw [decide_eq_true_iff]
  rintro rfl
  rw [(hs.sound.inverse k j).1 he] at hk
  cases hk

theorem filter_unawaited (hno : h ∉ s.awaited) :
    (s.awaited.filter fun j => decide (j ≠ h)) = s.awaited := by
  rw [List.filter_eq_self]
  intro j hj
  rw [decide_eq_true_iff]
  rintro rfl
  exact hno hj

/-- Whatever becomes of a report, afterwards the handle is nowhere and all others are where they
were. -/
theorem reported_eq (hs : s.Tidy) (h : Handle) :
    s.reported h =
      ⟨s.entries.filter fun e => decide (e.2 ≠ h), s.keys.erase h,
        s.awaited.filter fun j => decide (j ≠ h)⟩ := by
  unfold reported
  cases hk : s.keys.get? h with
  | some key =>
    rw [acknowledge_of_get? hk, Option.getD_some, hs.filter_key hk,
      filter_unawaited (hs.apart h ⟨key, hk⟩)]
  | none =>
    rw [hs.filter_unheld hk, Table.erase_of_none hk]
    by_cases ha : h ∈ s.awaited
    · rw [acknowledge_of_awaited hk ha, Option.getD_some]
    · rw [acknowledge_eq_none_iff.2 ⟨not_holds_iff.2 hk, ha⟩, Option.getD_none, filter_unawaited ha]

theorem reported (hs : s.Tidy) (h : Handle) : (s.reported h).Tidy := by
  unfold Shelf.reported
  cases ht : s.acknowledge h with
  | some t => exact hs.acknowledge ht
  | none => exact hs

theorem known_iff (s : Shelf) (h : Handle) :
    (∃ t, s.acknowledge h = some t) ↔ s.Holds h ∨ h ∈ s.awaited := by
  have hnone := acknowledge_eq_none_iff (s := s) (h := h)
  cases ht : s.acknowledge h with
  | some t => simpa [ht, not_and_or, imp_iff_not_or] using hnone
  | none => simpa [ht] using hnone

theorem forgets (hs : s.Tidy) (h : Handle) : s.Forgets h := by
  refine ⟨known_iff s h, ?_, ?_, ?_, ?_⟩
  · intro hnone
    unfold Shelf.reported
    rw [hnone, Option.getD_none]
  · rw [hs.reported_eq]
  · intro j
    rw [hs.reported_eq]
    exact Table.get?_erase s.keys h j
  · rw [hs.reported_eq]

theorem reported_comm (hs : s.Tidy) (h j : Handle) :
    (s.reported h).reported j = (s.reported j).reported h := by
  rw [(hs.reported h).reported_eq, (hs.reported j).reported_eq, hs.reported_eq, hs.reported_eq]
  have hkeys : (s.keys.erase h).erase j = (s.keys.erase j).erase h := by
    simp only [Table.erase, Table.remove, List.filter_filter, Bool.and_comm]
  simp only [hkeys, List.filter_filter, Bool.and_comm]

/-- Whether a report is acknowledged does not depend on the reports of other handles. -/
theorem known_reported (hs : s.Tidy) (hne : j ≠ h) :
    (∃ t, (s.reported h).acknowledge j = some t) ↔ ∃ t, s.acknowledge j = some t := by
  rw [known_iff, known_iff, hs.reported_eq]
  unfold Holds
  simp [Table.get?_erase, hne]

end Tidy

/-- Whatever became of a shelf, its two views agree and stay apart from what is awaited. Every search
tries the entries of at least its capacity upwards to the first that can be upgraded, whatever the
trials depend on. Every report takes away its own handle if that is known, and reports of different
handles may come in any order. -/
theorem shelf_is_tried_upwards (hs : s.Reachable) :
    s.Tidy ∧
      (∀ {α σ : Type} (least : Nat) (upgrade : σ → Handle → Option α × σ) (state : σ),
        Takes s least upgrade state (s.pick least upgrade state).1
          (s.pick least upgrade state).2) ∧
      (∀ h, s.Forgets h) ∧
      ∀ h j, j ≠ h →
        ((∃ t, (s.reported h).acknowledge j = some t) ↔ ∃ t, s.acknowledge j = some t) ∧
          (s.reported h).reported j = (s.reported j).reported h := by
  have htidy := hs.tidy
  refine ⟨htidy, fun least upgrade state => htidy.takes least upgrade state, htidy.forgets, ?_⟩
  intro h j hne
  exact ⟨htidy.known_reported hne, htidy.reported_comm h j⟩

/-- Of four handles three are large enough. The smallest of them fails, the older of the other two
succeeds as the second trial, and the report of the one that failed is the only one still known. -/
theorem second_of_three_trials :
    let s := (((empty.insert ⟨8, 1⟩ ⟨0, 0⟩).insert ⟨4, 2⟩ ⟨1, 0⟩).insert ⟨8, 3⟩ ⟨2, 0⟩).insert
      ⟨2, 4⟩ ⟨3, 0⟩
    let upgrade : List Handle → Handle → Option Nat × List Handle := fun known h =>
      (if h.index = 1 then none else some known.length, known ++ [h])
    let picked := s.pick 3 upgrade []
    s.Reachable ∧ Takes s 3 upgrade [] picked.1 picked.2 ∧
      picked.1.state = [⟨1, 0⟩, ⟨0, 0⟩] ∧
      picked.1.hit.map (fun hit => (hit.key, hit.value)) = some (⟨8, 1⟩, 1) ∧
      picked.2.entries = [(⟨2, 4⟩, ⟨3, 0⟩), (⟨8, 3⟩, ⟨2, 0⟩)] ∧ picked.2.awaited = [⟨1, 0⟩] ∧
      picked.2.Forgets ⟨1, 0⟩ ∧ (picked.2.reported ⟨1, 0⟩).awaited = [] ∧
      (picked.2.reported ⟨0, 0⟩).reported ⟨1, 0⟩ = (picked.2.reported ⟨1, 0⟩).reported ⟨0, 0⟩ := by
  intro s upgrade picked
  have hs : s.Reachable :=
    (((Reachable.empty.insert (by decide) (not_holds_iff.2 rfl) (by decide)).insert (by decide)
      (not_holds_iff.2 rfl) (by decide)).insert (by decide) (not_holds_iff.2 rfl)
      (by decide)).insert (by decide) (not_holds_iff.2 rfl) (by decide)
  obtain ⟨-, htakes, -, -⟩ := shelf_is_tried_upwards hs
  obtain ⟨-, -, hforgets, hcomm⟩ := shelf_is_tried_upwards (hs.pick 3 upgrade [])
  exact ⟨hs, htakes 3 upgrade [], by decide, by decide, by decide, by decide, hforgets ⟨1, 0⟩,
    by decide, (hcomm ⟨0, 0⟩ ⟨1, 0⟩ (by decide)).2⟩

end BlobExchange.Shelf
