import BlobExchange.Idle.Shelf
import Mathlib.Data.List.Nodup
/-! # What the shelf holds

A shelf is sound when its entries stand in order and its two views agree. -/

namespace BlobExchange

namespace ShelfKey

variable {a b c : ShelfKey}

theorem before_iff :
    a.before b = true ↔
      a.capacity < b.capacity ∨ a.capacity = b.capacity ∧ a.insertion < b.insertion :=
  decide_eq_true_iff

theorem before_irrefl (a : ShelfKey) : ¬ a.before a = true := by
  rw [before_iff]
  omega

theorem before_trans (hab : a.before b = true) (hbc : b.before c = true) : a.before c = true := by
  rw [before_iff] at hab hbc ⊢
  omega

theorem before_of_not_before (h : ¬ a.before b = true) (hne : a ≠ b) : b.before a = true := by
  obtain ⟨ac, ai⟩ := a
  obtain ⟨bc, bi⟩ := b
  rw [before_iff] at h ⊢
  simp only [ne_eq, ShelfKey.mk.injEq, not_and] at h hne ⊢
  omega

end ShelfKey

namespace Shelf

/-- A handle is on the shelf under some key. -/
def Holds (s : Shelf) (h : Handle) : Prop := ∃ key, s.keys.get? h = some key

/-- The entries are in order, and they are the keys of the handles. -/
structure Sound (s : Shelf) : Prop where
  sorted : s.entries.Pairwise fun a b => a.1.before b.1 = true
  inverse : ∀ key h, (key, h) ∈ s.entries ↔ s.keys.get? h = some key

theorem sound_empty : Sound empty :=
  ⟨List.Pairwise.nil, fun key h => by simp [empty]⟩

variable {s t : Shelf} {key : ShelfKey} {h j : Handle}

theorem not_holds_iff : ¬ s.Holds h ↔ s.keys.get? h = none := by
  unfold Holds
  rw [Option.eq_none_iff_forall_ne_some, not_exists]

namespace Sound

theorem nodup_keys (hs : s.Sound) : (s.entries.map Prod.fst).Nodup := by
  rw [List.Nodup, List.pairwise_map]
  apply hs.sorted.imp
  intro a b hab heq
  rw [heq] at hab
  exact ShelfKey.before_irrefl b.1 hab

theorem nodup_handles (hs : s.Sound) : (s.entries.map Prod.snd).Nodup := by
  rw [List.Nodup, List.pairwise_map]
  apply hs.sorted.imp_of_mem
  intro a b ha hb hab heq
  have hka := (hs.inverse a.1 a.2).1 ha
  have hkb := (hs.inverse b.1 b.2).1 hb
  rw [heq, hkb, Option.some.injEq] at hka
  rw [hka] at hab
  exact ShelfKey.before_irrefl a.1 hab

theorem holds_iff (hs : s.Sound) : s.Holds h ↔ h ∈ s.entries.map Prod.snd := by
  constructor
  · rintro ⟨key, hk⟩
    exact List.mem_map_of_mem ((hs.inverse key h).2 hk)
  · intro hm
    obtain ⟨e, he, rfl⟩ := List.mem_map.1 hm
    exact ⟨e.1, (hs.inverse e.1 e.2).1 he⟩

theorem handle_eq (hs : s.Sound) (hh : (key, h) ∈ s.entries) (hj : (key, j) ∈ s.entries) :
    h = j :=
  congrArg Prod.snd (List.inj_on_of_nodup_map hs.nodup_keys hh hj rfl)

end Sound

/-! ## Shelving -/

theorem mem_place {entries : List (ShelfKey × Handle)} (fresh : ∀ e ∈ entries, e.1 ≠ key)
    (e : ShelfKey × Handle) : e ∈ place key h entries ↔ e = (key, h) ∨ e ∈ entries := by
  induction entries with
  | nil => simp [place]
  | cons d rest ih =>
    have hd : ¬ key = d.1 := fun heq => fresh d List.mem_cons_self heq.symm
    have ih := ih fun e he => fresh e (List.mem_cons_of_mem d he)
    unfold place
    split
    · simp
    · rw [List.mem_cons, ih, List.mem_cons]
      exact or_left_comm

theorem sorted_place {entries : List (ShelfKey × Handle)} (fresh : ∀ e ∈ entries, e.1 ≠ key)
    (sorted : entries.Pairwise fun a b => a.1.before b.1 = true) :
    (place key h entries).Pairwise fun a b => a.1.before b.1 = true := by
  induction entries with
  | nil => exact List.pairwise_singleton _ _
  | cons d rest ih =>
    have hd : ¬ key = d.1 := fun heq => fresh d List.mem_cons_self heq.symm
    have hrest : ∀ e ∈ rest, e.1 ≠ key := fun e he => fresh e (List.mem_cons_of_mem d he)
    rw [List.pairwise_cons] at sorted
    unfold place
    split
    · rename_i hbefore
      refine List.pairwise_cons.2 ⟨?_, List.pairwise_cons.2 sorted⟩
      intro e he
      rcases List.mem_cons.1 he with rfl | he
      · exact hbefore
      · exact ShelfKey.before_trans hbefore (sorted.1 e he)
    · rename_i hbefore
      refine List.pairwise_cons.2 ⟨?_, ih hrest sorted.2⟩
      intro e he
      rcases (mem_place hrest e).1 he with rfl | he
      · exact ShelfKey.before_of_not_before hbefore hd
      · exact sorted.1 e he

theorem Sound.insert (hs : s.Sound) (fresh : ∀ e ∈ s.entries, e.1 ≠ key) (new : ¬ s.Holds h) :
    (s.insert key h).Sound := by
  refine ⟨sorted_place fresh hs.sorted, ?_⟩
  intro k j
  show (k, j) ∈ place key h s.entries ↔ (s.keys.insert h key).get? j = some k
  rw [mem_place fresh, Table.get?_insert, hs.inverse]
  by_cases hj : j = h
  · subst hj
    rw [not_holds_iff.1 new]
    simp [eq_comm]
  · simp [hj]

theorem holds_insert (s : Shelf) (key : ShelfKey) (h j : Handle) :
    (s.insert key h).Holds j ↔ j = h ∨ s.Holds j := by
  show (∃ k, (s.keys.insert h key).get? j = some k) ↔ _
  simp only [Table.get?_insert]
  by_cases hj : j = h
  · simp [hj]
  · simp [hj, Holds]

/-! ## Acknowledging -/

theorem acknowledge_of_get? (hk : s.keys.get? h = some key) :
    s.acknowledge h = some { s with
      entries := s.entries.filter fun e => decide (e.1 ≠ key)
      keys := s.keys.erase h } := by
  unfold acknowledge
  rw [hk]

theorem acknowledge_of_awaited (hk : s.keys.get? h = none) (ha : h ∈ s.awaited) :
    s.acknowledge h =
      some { s with awaited := s.awaited.filter fun j => decide (j ≠ h) } := by
  unfold acknowledge
  rw [hk]
  exact if_pos ha

theorem acknowledge_eq_none_iff : s.acknowledge h = none ↔ ¬ s.Holds h ∧ h ∉ s.awaited := by
  rw [not_holds_iff]
  cases hk : s.keys.get? h with
  | some key => simp [acknowledge_of_get? hk]
  | none =>
    by_cases ha : h ∈ s.awaited
    · simp [acknowledge_of_awaited hk ha, ha]
    · simp [acknowledge, hk, ha]

theorem acknowledge_cases (ht : s.acknowledge h = some t) :
    (∃ key, s.keys.get? h = some key ∧
      t = { s with
        entries := s.entries.filter fun e => decide (e.1 ≠ key)
        keys := s.keys.erase h }) ∨
    (¬ s.Holds h ∧ h ∈ s.awaited ∧
      t = { s with awaited := s.awaited.filter fun j => decide (j ≠ h) }) := by
  cases hk : s.keys.get? h with
  | some key =>
    rw [acknowledge_of_get? hk, Option.some.injEq] at ht
    exact Or.inl ⟨key, rfl, ht.symm⟩
  | none =>
    by_cases ha : h ∈ s.awaited
    · rw [acknowledge_of_awaited hk ha, Option.some.injEq] at ht
      exact Or.inr ⟨not_holds_iff.2 hk, ha, ht.symm⟩
    · rw [acknowledge_eq_none_iff.2 ⟨not_holds_iff.2 hk, ha⟩] at ht
      cases ht

theorem Sound.acknowledge (hs : s.Sound) (ht : s.acknowledge h = some t) : t.Sound := by
  rcases acknowledge_cases ht with ⟨key, hk, rfl⟩ | ⟨-, -, rfl⟩
  · refine ⟨hs.sorted.filter _, ?_⟩
    intro k j
    show (k, j) ∈ s.entries.filter _ ↔ (s.keys.erase h).get? j = some k
    rw [List.mem_filter, Table.get?_erase, decide_eq_true_iff]
    by_cases hj : j = h
    · subst hj
      rw [hs.inverse, hk]
      simp [eq_comm]
    · rw [if_neg hj, hs.inverse]
      refine ⟨And.left, fun hkj => ⟨hkj, ?_⟩⟩
      rintro rfl
      exact hj (hs.handle_eq ((hs.inverse k j).2 hkj) ((hs.inverse k h).2 hk))
  · exact ⟨hs.sorted, hs.inverse⟩

theorem holds_acknowledge (ht : s.acknowledge h = some t) (j : Handle) :
    t.Holds j ↔ s.Holds j ∧ j ≠ h := by
  rcases acknowledge_cases ht with ⟨key, hk, rfl⟩ | ⟨hn, -, rfl⟩
  · show (∃ k, (s.keys.erase h).get? j = some k) ↔ _
    simp only [Table.get?_erase]
    by_cases hj : j = h
    · simp [hj]
    · simp [hj, Holds]
  · refine ⟨fun hj => ⟨hj, ?_⟩, And.left⟩
    rintro rfl
    exact hn hj

theorem mem_awaited_acknowledge (ht : s.acknowledge h = some t) (apart : s.Holds h → h ∉ s.awaited)
    (j : Handle) : j ∈ t.awaited ↔ j ∈ s.awaited ∧ j ≠ h := by
  rcases acknowledge_cases ht with ⟨key, hk, rfl⟩ | ⟨-, -, rfl⟩
  · refine ⟨fun hj => ⟨hj, ?_⟩, And.left⟩
    rintro rfl
    exact apart ⟨key, hk⟩ hj
  · simp

/-! ## Searching -/

section Search

variable {α σ : Type} {upgrade : σ → Handle → Option α × σ}

/-- A search cuts the entries into those that were stale, the one it came upon and those that it
did not reach. -/
theorem entries_search (upgrade : σ → Handle → Option α × σ) (entries : List (ShelfKey × Handle))
    (state : σ) :
    (search upgrade entries state).stale ++
      (search upgrade entries state).hit.toList.map (fun hit => (hit.key, hit.handle)) ++
      (search upgrade entries state).rest = entries := by
  induction entries generalizing state with
  | nil => rfl
  | cons e rest ih =>
    obtain ⟨key, handle⟩ := e
    unfold search
    split
    · rfl
    · rename_i after _
      simpa using ih after

/-- The entries from which a search starts. -/
def above (s : Shelf) (least : Nat) : List (ShelfKey × Handle) :=
  s.entries.dropWhile (isBelow least)

variable {least : Nat} {state : σ}

/-- Around the entries that a search tries, the others stay. -/
theorem entries_pick (s : Shelf) (least : Nat) (upgrade : σ → Handle → Option α × σ) (state : σ) :
    ∃ tried, tried.map Prod.snd = (s.pick least upgrade state).1.tried ∧
      s.entries = s.entries.takeWhile (isBelow least) ++ tried ++
        (s.pick least upgrade state).1.rest ∧
      (s.pick least upgrade state).2.entries =
        s.entries.takeWhile (isBelow least) ++ (s.pick least upgrade state).1.rest := by
  refine ⟨(s.pick least upgrade state).1.stale ++ (s.pick least upgrade state).1.hit.toList.map
    (fun hit => (hit.key, hit.handle)), ?_, ?_, rfl⟩
  · unfold Search.tried
    rw [List.map_append, List.map_map]
    rfl
  · have hsplit := entries_search upgrade (s.above least) state
    rw [List.append_assoc]
    exact (congrArg (s.entries.takeWhile (isBelow least) ++ ·) hsplit).trans
      List.takeWhile_append_dropWhile |>.symm

theorem get?_pick (s : Shelf) (least : Nat) (upgrade : σ → Handle → Option α × σ) (state : σ)
    (j : Handle) :
    (s.pick least upgrade state).2.keys.get? j =
      if j ∈ (s.pick least upgrade state).1.tried then none else s.keys.get? j :=
  Table.get?_eraseAll _ _ _

theorem holds_pick (s : Shelf) (least : Nat) (upgrade : σ → Handle → Option α × σ) (state : σ)
    (j : Handle) :
    (s.pick least upgrade state).2.Holds j ↔
      s.Holds j ∧ j ∉ (s.pick least upgrade state).1.tried := by
  unfold Holds
  simp only [get?_pick]
  by_cases hj : j ∈ (s.pick least upgrade state).1.tried
  · simp [hj]
  · simp [hj]

theorem mem_await {awaited handles : List Handle} :
    j ∈ await awaited handles ↔ j ∈ awaited ∨ j ∈ handles := by
  unfold await
  induction handles generalizing awaited with
  | nil => simp
  | cons h rest ih =>
    rw [List.foldl_cons, ih]
    by_cases hm : h ∈ awaited
    · rw [if_pos hm, List.mem_cons]
      constructor
      · rintro (hj | hj)
        · exact Or.inl hj
        · exact Or.inr (Or.inr hj)
      · rintro (hj | rfl | hj)
        · exact Or.inl hj
        · exact Or.inl hm
        · exact Or.inr hj
    · rw [if_neg hm, List.mem_append, List.mem_singleton, List.mem_cons, or_assoc]

theorem mem_awaited_pick (s : Shelf) (least : Nat) (upgrade : σ → Handle → Option α × σ)
    (state : σ) (j : Handle) :
    j ∈ (s.pick least upgrade state).2.awaited ↔
      j ∈ s.awaited ∨ j ∈ (s.pick least upgrade state).1.stale.map Prod.snd :=
  mem_await

theorem Sound.pick (hs : s.Sound) (least : Nat) (upgrade : σ → Handle → Option α × σ)
    (state : σ) : (s.pick least upgrade state).2.Sound := by
  obtain ⟨tried, htried, hbefore, hafter⟩ := entries_pick s least upgrade state
  have hnodup := hs.nodup_handles
  rw [hbefore, List.append_assoc, List.map_append, List.map_append] at hnodup
  have hsub : (s.pick least upgrade state).2.entries.Sublist s.entries := by
    rw [hafter]
    conv_rhs => rw [hbefore, List.append_assoc]
    exact List.Sublist.append_left (List.sublist_append_right _ _) _
  refine ⟨hs.sorted.sublist hsub, ?_⟩
  intro key h
  rw [get?_pick, ← htried]
  by_cases hm : h ∈ tried.map Prod.snd
  · -- a tried handle has no second entry among those that stay
    simp only [hm, if_true, reduceCtorEq, iff_false]
    rw [hafter, List.mem_append]
    have hdisjoint := List.nodup_append.1 hnodup
    have hlater := List.nodup_append.1 hdisjoint.2.1
    rintro (he | he)
    · exact hdisjoint.2.2 h (List.mem_map_of_mem he) h (List.mem_append_left _ hm) rfl
    · exact hlater.2.2 h hm h (List.mem_map_of_mem he) rfl
  · rw [if_neg hm, ← hs.inverse]
    refine ⟨fun he => hsub.subset he, fun he => ?_⟩
    rw [hbefore, List.append_assoc, List.mem_append, List.mem_append] at he
    rw [hafter, List.mem_append]
    rcases he with he | he | he
    · exact Or.inl he
    · exact absurd (List.mem_map_of_mem he) hm
    · exact Or.inr he

theorem Sound.holds_of_tried (hs : s.Sound)
    (hm : h ∈ (s.pick least upgrade state).1.tried) : s.Holds h := by
  obtain ⟨tried, htried, hbefore, -⟩ := entries_pick s least upgrade state
  rw [hs.holds_iff, hbefore, List.map_append, List.map_append, htried]
  exact List.mem_append_left _ (List.mem_append_right _ hm)

end Search

end Shelf

end BlobExchange
