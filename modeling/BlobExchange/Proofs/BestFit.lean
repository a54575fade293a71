import BlobExchange.Proofs.AlikePools
import BlobExchange.Proofs.Tracking
/-! # The best fit

What a search finds does not depend on the stale entries of the shelf (`fit_entry`). -/

namespace BlobExchange.Shelf

variable {p q : Pool} {key : ShelfKey} {h : Handle} {least : Nat}

/-- The entries whose buffers are in the pool. -/
def liveEntries (s : Shelf) (p : Pool) : List (ShelfKey × Handle) :=
  s.entries.filter fun e => p.isLive e.2

/-! ## Order -/

/-- The entries that a search may try are those of at least the capacity. -/
theorem dropWhile_isBelow {entries : List (ShelfKey × Handle)}
    (sorted : entries.Pairwise fun a b => a.1.before b.1 = true) :
    entries.dropWhile (isBelow least) = entries.filter fun e => !isBelow least e := by
  induction entries with
  | nil => rfl
  | cons e rest ih =>
    rw [List.pairwise_cons] at sorted
    cases hbelow : isBelow least e with
    | true =>
      rw [List.dropWhile_cons_of_pos hbelow, List.filter_cons_of_neg (by simp [hbelow])]
      exact ih sorted.2
    | false =>
      -- behind an entry that is large enough every entry is
      have hall : ∀ d ∈ rest, (!isBelow least d) = true := by
        intro d hd
        have hbefore := ShelfKey.before_iff.1 (sorted.1 d hd)
        simp only [isBelow, decide_eq_false_iff_not, Bool.not_eq_true', Nat.not_lt] at hbelow ⊢
        omega
      rw [List.dropWhile_cons_of_neg (by simp [hbelow]), List.filter_cons_of_pos (by simp [hbelow]),
        List.filter_eq_self.2 hall]

/-- An entry that is put in its place among all is in its place among those that a test lets
pass. -/
theorem filter_place {entries : List (ShelfKey × Handle)} (f : ShelfKey × Handle → Bool)
    (hf : f (key, h) = true) (fresh : ∀ e ∈ entries, e.1 ≠ key)
    (sorted : entries.Pairwise fun a b => a.1.before b.1 = true) :
    (place key h entries).filter f = place key h (entries.filter f) := by
  induction entries with
  | nil => exact List.filter_cons_of_pos hf
  | cons d rest ih =>
    obtain ⟨k, j⟩ := d
    rw [List.pairwise_cons] at sorted
    have hne : ¬ key = k := fun heq => fresh (k, j) List.mem_cons_self heq.symm
    have ih := ih (fun e he => fresh e (List.mem_cons_of_mem _ he)) sorted.2
    by_cases hbefore : key.before k = true
    · -- what is placed in front of all is in front of those that pass
      have hfront : ∀ l : List (ShelfKey × Handle), (∀ e ∈ l, key.before e.1 = true) →
          place key h l = (key, h) :: l := by
        intro l hl
        cases l with
        | nil => rfl
        | cons e l =>
          obtain ⟨k', j'⟩ := e
          unfold place
          rw [if_pos (hl (k', j') List.mem_cons_self)]
      have hall : ∀ e ∈ (k, j) :: rest, key.before e.1 = true := by
        intro e he
        rcases List.mem_cons.1 he with rfl | he
        · exact hbefore
        · exact ShelfKey.before_trans hbefore (sorted.1 e he)
      rw [hfront _ hall, hfront _ fun e he => hall e (List.mem_filter.1 he).1,
        List.filter_cons_of_pos hf]
    · have hplace : ∀ l, place key h ((k, j) :: l) = (k, j) :: place key h l := by
        intro l
        rw [place, if_neg hbefore, if_neg hne]
      rw [hplace]
      cases hfj : f (k, j) with
      | true => rw [List.filter_cons_of_pos hfj, List.filter_cons_of_pos hfj, hplace, ih]
      | false =>
        have hno : ¬ f (k, j) = true := by simp [hfj]
        rw [List.filter_cons_of_neg hno, List.filter_cons_of_neg hno, ih]

/-- An entry that a test rejects makes no difference to those that it lets pass. -/
theorem filter_place_of_neg {entries : List (ShelfKey × Handle)} (f : ShelfKey × Handle → Bool)
    (hf : ¬ f (key, h) = true) (fresh : ∀ e ∈ entries, e.1 ≠ key) :
    (place key h entries).filter f = entries.filter f := by
  induction entries with
  | nil => exact List.filter_cons_of_neg hf
  | cons d rest ih =>
    obtain ⟨k, j⟩ := d
    have hne : ¬ key = k := fun heq => fresh (k, j) List.mem_cons_self heq.symm
    have ih := ih fun e he => fresh e (List.mem_cons_of_mem _ he)
    unfold place
    by_cases hbefore : key.before k = true
    · rw [if_pos hbefore]
      exact List.filter_cons_of_neg hf
    · rw [if_neg hbefore, if_neg hne, List.filter_cons, List.filter_cons, ih]

theorem liveEntries_insert {s : Shelf} (hs : s.Sound) (fresh : ∀ e ∈ s.entries, e.1 ≠ key)
    (p : Pool) :
    (s.insert key h).liveEntries p =
      if p.isLive h then place key h (s.liveEntries p) else s.liveEntries p := by
  cases hlive : p.isLive h with
  | true => exact filter_place (fun e => p.isLive e.2) hlive fresh hs.sorted
  | false => exact filter_place_of_neg (fun e => p.isLive e.2) (by simp [hlive]) fresh

/-! ## What a search finds and leaves -/

theorem liveEntries_cons (entries : List (ShelfKey × Handle)) (e : ShelfKey × Handle) (p : Pool) :
    (e :: entries).filter (fun e => p.isLive e.2) =
      if p.isLive e.2 then e :: entries.filter (fun e => p.isLive e.2)
      else entries.filter fun e => p.isLive e.2 :=
  List.filter_cons

theorem search_found (entries : List (ShelfKey × Handle)) (p : Pool) :
    (search Pool.upgrade entries p).hit.map (fun hit => (hit.key, hit.handle)) =
      (entries.filter fun e => p.isLive e.2).head? := by
  induction entries with
  | nil => rfl
  | cons e rest ih =>
    obtain ⟨k, j⟩ := e
    rw [liveEntries_cons]
    cases ht : p.take j with
    | some taken =>
      have hlive : p.isLive j = true :=
        Pool.isLive_iff.2 ⟨taken.1, Pool.claimed?_of_take ht⟩
      rw [if_pos hlive]
      simp only [search, Pool.upgrade, ht]
      rfl
    | none =>
      have hdead := Pool.isLive_eq_false_iff.2 (Pool.take_eq_none_iff.1 ht)
      rw [if_neg (by simp [hdead])]
      simp only [search, Pool.upgrade, ht]
      exact ih

section Pick

variable {s : Shelf}

/-- What a search for buffers finds: the entry and the buffer. -/
def fit (s : Shelf) (least : Nat) (p : Pool) : Option (Hit Buffer) :=
  (s.pick least Pool.upgrade p).1.hit

/-- A search finds the first live entry of at least the capacity. -/
theorem fit_entry (hs : s.Sound) (least : Nat) (p : Pool) :
    (s.fit least p).map (fun hit => (hit.key, hit.handle)) =
      ((s.liveEntries p).filter fun e => !isBelow least e).head? := by
  have hfound := search_found (s.above least) p
  have hswap : (s.above least).filter (fun e => p.isLive e.2) =
      (s.liveEntries p).filter fun e => !isBelow least e := by
    unfold above liveEntries
    rw [dropWhile_isBelow hs.sorted, List.filter_filter, List.filter_filter]
    apply List.filter_congr
    intro e _
    exact Bool.and_comm _ _
  rw [hswap] at hfound
  exact hfound

/-- The pool that a search leaves: without the buffer that was found, if there is one. -/
theorem state_pick (s : Shelf) (least : Nat) (p : Pool) :
    (s.fit least p = none ∧ (s.pick least Pool.upgrade p).1.state = p) ∨
      ∃ hit, s.fit least p = some hit ∧
        p.take hit.handle = some (hit.value, (s.pick least Pool.upgrade p).1.state) :=
  (search_upgrade (s.above least) p).2

theorem dwindles_pick (s : Shelf) (least : Nat) (p : Pool) :
    p.Dwindles (s.pick least Pool.upgrade p).1.state := by
  rcases state_pick s least p with ⟨-, hstate⟩ | ⟨hit, -, taken⟩
  · rw [hstate]
    exact .refl p
  · exact .take taken

/-- Of the live entries a search leaves those whose buffers are left. -/
theorem liveEntries_pick (s : Shelf) (least : Nat) (p : Pool) :
    (s.pick least Pool.upgrade p).2.liveEntries (s.pick least Pool.upgrade p).1.state =
      (s.liveEntries p).filter fun e => (s.pick least Pool.upgrade p).1.state.isLive e.2 := by
  obtain ⟨tried, htried, hbefore, hafter⟩ := entries_pick s least Pool.upgrade p
  have hdwindles := dwindles_pick s least p
  have hstale := (search_upgrade (s.above least) p).1
  have hstate := state_pick s least p
  change ∀ e ∈ (s.pick least Pool.upgrade p).1.stale, p.isLive e.2 = false at hstale
  unfold fit at hstate
  generalize (s.pick least Pool.upgrade p).1 = found at *
  generalize (s.pick least Pool.upgrade p).2 = t at *
  -- what was tried is gone: a stale handle was dead before, and the one found has been taken
  have hgone : tried.filter (fun e => found.state.isLive e.2) = [] := by
    rw [List.filter_eq_nil_iff]
    intro e he hl
    have hm : e.2 ∈ found.tried := htried ▸ List.mem_map_of_mem he
    rcases List.mem_append.1 hm with hm | hm
    · obtain ⟨d, hd, heq⟩ := List.mem_map.1 hm
      have hdead := hstale d hd
      rw [heq, hdwindles.live e.2 hl] at hdead
      cases hdead
    · rcases hstate with ⟨hnone, -⟩ | ⟨hit, hhit, taken⟩
      · rw [hnone] at hm
        cases hm
      · rw [hhit] at hm
        exact ((Pool.isLive_take taken e.2).1 hl).2 (List.mem_singleton.1 hm)
  generalize s.entries.takeWhile (isBelow least) = below at hbefore hafter
  unfold liveEntries
  rw [hdwindles.filter_filter Prod.snd, hafter, hbefore]
  rw [List.filter_append, List.filter_append, List.filter_append, hgone, List.append_nil]

end Pick

end BlobExchange.Shelf
