import BlobExchange.Proofs.Reclaiming
import BlobExchange.Proofs.Shelving
/-! # How shelf and pool stay together

Each thing that happens to shelf or pool keeps `Tracks`. That a report can always be acknowledged
is part of `Tracks.acknowledge`. -/

namespace BlobExchange

namespace Shelf

/-- The shelf knows the pool up to the reports that it has not acknowledged: `done` were
acknowledged, `due` were fetched and are next. `loose` is a handle whose buffer has just been parked
and that is not on the shelf yet. -/
structure Tracks (s : Shelf) (p : Pool) (done due : List Handle) (loose : Option Handle) :
    Prop where
  pool : p.Sound
  shelf : s.Sound
  nodup : (done ++ due ++ (p.reports ++ p.withheld)).Nodup
  past : ∀ h ∈ done ++ due ++ (p.reports ++ p.withheld), p.Past h
  known : ∀ h, (s.Holds h ∨ h ∈ s.awaited ∨ loose = some h) ↔
    (p.isLive h = true ∨ h ∈ due ∨ h ∈ p.reports ++ p.withheld)
  apart : ∀ h, h ∈ s.awaited → ¬ s.Holds h ∧ p.isLive h = false
  alone : ∀ h, loose = some h → ¬ s.Holds h ∧ h ∉ s.awaited

/-! ## Searching the pool -/

/-- A search that upgrades to buffers of the pool finds every handle that it passes over dead, and
changes the pool only by taking the buffer that it comes upon. -/
theorem search_upgrade (entries : List (ShelfKey × Handle)) (p : Pool) :
    (∀ e ∈ (search Pool.upgrade entries p).stale, p.isLive e.2 = false) ∧
      ((search Pool.upgrade entries p).hit = none ∧ (search Pool.upgrade entries p).state = p ∨
        ∃ hit, (search Pool.upgrade entries p).hit = some hit ∧
          p.take hit.handle = some (hit.value, (search Pool.upgrade entries p).state)) := by
  induction entries with
  | nil => exact ⟨fun e he => absurd he List.not_mem_nil, Or.inl ⟨rfl, rfl⟩⟩
  | cons e rest ih =>
    obtain ⟨key, handle⟩ := e
    cases ht : p.take handle with
    | some taken =>
      have hup : Pool.upgrade p handle = (some taken.1, taken.2) := by rw [Pool.upgrade, ht]
      simp only [search, hup]
      exact ⟨fun e he => absurd he List.not_mem_nil, Or.inr ⟨⟨key, handle, taken.1⟩, rfl, ht⟩⟩
    | none =>
      have hup : Pool.upgrade p handle = (none, p) := by rw [Pool.upgrade, ht]
      have hdead := Pool.isLive_eq_false_iff.2 (Pool.take_eq_none_iff.1 ht)
      simp only [search, hup]
      refine ⟨fun e he => ?_, ih.2⟩
      rcases List.mem_cons.1 he with rfl | he
      · exact hdead
      · exact ih.1 e he

namespace Tracks

variable {s t : Shelf} {p q r : Pool} {done due : List Handle} {loose : Option Handle}
  {h j : Handle} {b : Buffer} {key : ShelfKey}

theorem start : Tracks Shelf.empty Pool.empty [] [] none where
  pool := Pool.sound_empty
  shelf := sound_empty
  nodup := List.nodup_nil
  past := fun h hm => by simp [Pool.empty] at hm
  known := fun h => by
    simp [Holds, Shelf.empty, Pool.empty, Pool.isLive, Pool.claimed?]
  apart := fun h hm => by simp [Shelf.empty] at hm
  alone := fun h hl => by cases hl

/-! ## What others do -/

/-- Reports may be passed from one list to the other, and the queue is of no account. -/
theorem passOn (ht : Tracks s p done due loose) (slots : r.slots = p.slots)
    (free : r.free = p.free) (order : r.order ⊆ p.order)
    (reports : (r.reports ++ r.withheld).Perm (p.reports ++ p.withheld)) :
    Tracks s r done due loose := by
  have hpast := Pool.past_congr slots
  have hlive := Pool.isLive_congr slots
  have hall : (done ++ due ++ (r.reports ++ r.withheld)).Perm
      (done ++ due ++ (p.reports ++ p.withheld)) := reports.append_left _
  refine ⟨ht.pool.congr slots free order, ht.shelf, hall.nodup_iff.2 ht.nodup, ?_, ?_, ?_,
    ht.alone⟩
  · intro j hj
    rw [hpast]
    exact ht.past j (hall.mem_iff.1 hj)
  · intro j
    rw [hlive, reports.mem_iff]
    exact ht.known j
  · intro j hj
    rw [hlive]
    exact ht.apart j hj

/-- A buffer may be taken if its handle is added to the reports. -/
theorem surrender (ht : Tracks s p done due loose) (taken : p.take h = some (b, q)) :
    Tracks s { q with withheld := q.withheld ++ [h] } done due loose := by
  have hreports : q.reports ++ (q.withheld ++ [h]) = p.reports ++ p.withheld ++ [h] := by
    rw [Pool.eq_of_take taken, List.append_assoc]
  have hall : done ++ due ++ (q.reports ++ (q.withheld ++ [h])) =
      done ++ due ++ (p.reports ++ p.withheld) ++ [h] := by
    rw [hreports, ← List.append_assoc (done ++ due)]
  have hlive : p.isLive h = true := Pool.isLive_iff.2 ⟨b, Pool.claimed?_of_take taken⟩
  -- the handle was live, so it has not been reported before
  have hnew : h ∉ done ++ due ++ (p.reports ++ p.withheld) := by
    intro hm
    rw [(ht.past h hm).isLive_eq_false] at hlive
    cases hlive
  have hpast := Pool.past_take taken
  have hlives := Pool.isLive_take taken
  refine ⟨(ht.pool.take taken).congr rfl rfl (List.Subset.refl _), ht.shelf, ?_, ?_, ?_, ?_,
    ht.alone⟩
  · show (done ++ due ++ (q.reports ++ (q.withheld ++ [h]))).Nodup
    rw [hall, (List.perm_append_singleton h _).nodup_iff]
    exact List.nodup_cons.2 ⟨hnew, ht.nodup⟩
  · show ∀ j ∈ done ++ due ++ (q.reports ++ (q.withheld ++ [h])), q.Past j
    intro j hj
    rw [hall, List.mem_append, List.mem_singleton] at hj
    rw [hpast]
    exact hj.imp_left (ht.past j)
  · intro j
    show _ ↔ q.isLive j = true ∨ j ∈ due ∨ j ∈ q.reports ++ (q.withheld ++ [h])
    rw [ht.known, hlives, hreports, (List.perm_append_singleton h _).mem_iff, List.mem_cons]
    by_cases hj : j = h
    · subst hj
      simp [hlive]
    · simp [hj]
  · intro j hj
    obtain ⟨hheld, hdead⟩ := ht.apart j hj
    refine ⟨hheld, Bool.eq_false_iff.2 fun hl => ?_⟩
    rw [((hlives j).1 hl).1] at hdead
    cases hdead

/-- Nothing that others do makes the shelf lose track. -/
theorem kept (s : Shelf) (done due : List Handle) (loose : Option Handle) :
    Pool.KeptByOthers fun p => Tracks s p done due loose where
  order p order hsub ht := ht.passOn rfl rfl hsub (List.Perm.refl _)
  reclaim p h bytes q ht hr := by
    obtain ⟨b, rest, taken, -, rfl⟩ := Pool.take_of_reclaim hr
    refine (ht.surrender taken).passOn rfl rfl (List.Subset.refl _) ?_
    show (rest.reports ++ [h] ++ rest.withheld).Perm (rest.reports ++ (rest.withheld ++ [h]))
    rw [List.append_assoc]
    exact List.perm_append_comm.append_left _
  silently p h bytes q ht hr := by
    obtain ⟨b, rest, taken, -, rfl⟩ := Pool.take_of_reclaimSilently hr
    exact (ht.surrender taken).passOn rfl rfl (List.Subset.refl _) (List.Perm.refl _)
  deliver p h ht := by
    unfold Pool.deliver
    split
    · rename_i hm
      refine ht.passOn rfl rfl (List.Subset.refl _) ?_
      show (p.reports ++ [h] ++ p.withheld.erase h).Perm (p.reports ++ p.withheld)
      rw [List.append_assoc]
      exact ((List.perm_cons_erase hm).symm).append_left _
    · exact ht

/-! ## Reports -/

theorem fetch (ht : Tracks s p done [] loose) : Tracks s p.fetch.2 done p.reports loose where
  pool := ⟨ht.pool.mem_free, ht.pool.nodup_free, ht.pool.parked⟩
  shelf := ht.shelf
  nodup := by
    have h := ht.nodup
    rw [List.append_nil, ← List.append_assoc] at h
    exact h
  past := fun h hm => by
    apply ht.past h
    rw [List.append_nil, ← List.append_assoc]
    exact hm
  known := fun h => by
    rw [ht.known h, List.mem_append]
    show _ ↔ p.isLive h = true ∨ h ∈ p.reports ∨ h ∈ [] ++ p.withheld
    simp
  apart := ht.apart
  alone := ht.alone

theorem exactly_one (ht : Tracks s p done (h :: due) none) :
    (s.Holds h ∨ h ∈ s.awaited) ∧ ¬ (s.Holds h ∧ h ∈ s.awaited) := by
  have hk := (ht.known h).2 (Or.inr (Or.inl List.mem_cons_self))
  refine ⟨?_, fun hb => (ht.apart h hb.2).1 hb.1⟩
  rcases hk with hk | hk | hk
  · exact Or.inl hk
  · exact Or.inr hk
  · cases hk

theorem acknowledge (ht : Tracks s p done (h :: due) none) :
    ∃ t, s.acknowledge h = some t ∧ Tracks t p (done ++ [h]) due none := by
  obtain ⟨hone, -⟩ := ht.exactly_one
  cases hack : s.acknowledge h with
  | none =>
    obtain ⟨hheld, hawaited⟩ := acknowledge_eq_none_iff.1 hack
    rcases hone with hone | hone
    · exact absurd hone hheld
    · exact absurd hone hawaited
  | some t =>
    have hawaited := mem_awaited_acknowledge hack fun hh ha => (ht.apart h ha).1 hh
    have hheld := holds_acknowledge hack
    have hlists : done ++ (h :: due) = done ++ [h] ++ due := by simp
    have hnodup := ht.nodup
    have hmem : h ∈ done ++ (h :: due) ++ (p.reports ++ p.withheld) := by simp
    have hdead : p.isLive h = false := (ht.past h hmem).isLive_eq_false
    -- no handle is reported twice, so `h` is not among the reports that are left
    have honce : h ∉ due ∧ h ∉ p.reports ++ p.withheld := by
      rw [List.append_assoc, List.nodup_append, List.cons_append, List.nodup_cons,
        List.mem_append] at hnodup
      obtain ⟨-, ⟨hcons, -⟩, -⟩ := hnodup
      exact ⟨fun hm => hcons (Or.inl hm), fun hm => hcons (Or.inr hm)⟩
    refine ⟨t, rfl, ht.pool, ht.shelf.acknowledge hack, ?_, ?_, ?_, ?_, ?_⟩
    · rw [← hlists]
      exact ht.nodup
    · rw [← hlists]
      exact ht.past
    · intro j
      have hk := ht.known j
      rw [hheld, hawaited]
      by_cases hj : j = h
      · subst hj
        simp [hdead, honce]
      · rw [List.mem_cons] at hk
        simpa [hj] using hk
    · intro j hj
      obtain ⟨hn, hd⟩ := ht.apart j ((hawaited j).1 hj).1
      exact ⟨fun hh => hn ((hheld j).1 hh).1, hd⟩
    · intro j hj
      cases hj

/-- When every report has been acknowledged, nothing is awaited and the handles on the shelf are
those of the buffers in the pool. -/
theorem caughtUp (ht : Tracks s p done [] none) (reports : p.reports = [])
    (withheld : p.withheld = []) :
    s.awaited = [] ∧ ∀ h, s.Holds h ↔ p.isLive h = true := by
  have hknown : ∀ h, (s.Holds h ∨ h ∈ s.awaited) ↔ p.isLive h = true := by
    intro h
    have hk := ht.known h
    rw [reports, withheld] at hk
    simpa using hk
  have hawaited : s.awaited = [] := by
    rw [List.eq_nil_iff_forall_not_mem]
    intro h hm
    have hdead := (ht.apart h hm).2
    rw [(hknown h).1 (Or.inr hm)] at hdead
    cases hdead
  refine ⟨hawaited, fun h => ?_⟩
  have hk := hknown h
  rw [hawaited] at hk
  simpa using hk

/-! ## Parking and shelving -/

/-- The handle under which a buffer is parked is loose. -/
theorem park (ht : Tracks s p done due none) (b : Buffer) :
    Tracks s (p.park b).2 done due (some p.vacancy) := by
  have hlive := ht.pool.isLive_park b
  have hnew : ¬ (s.Holds p.vacancy ∨ p.vacancy ∈ s.awaited) := by
    intro hm
    have hk := (ht.known p.vacancy).1 (hm.imp_right Or.inl)
    have hdead := Pool.isLive_eq_false_iff.2 ht.pool.claimed?_vacancy
    have hreport : p.vacancy ∈ done ++ due ++ (p.reports ++ p.withheld) := by
      rcases hk with hk | hk | hk
      · rw [hdead] at hk
        cases hk
      · exact List.mem_append_left _ (List.mem_append_right _ hk)
      · exact List.mem_append_right _ hk
    exact ht.pool.not_past_vacancy (ht.past _ hreport)
  have hsame : ∀ h, h ∈ s.awaited → h ≠ p.vacancy := by
    rintro h hm rfl
    exact hnew (Or.inr hm)
  refine ⟨ht.pool.park b, ht.shelf, ?_, ?_, ?_, ?_, ?_⟩
  · rw [Pool.reports_park, Pool.withheld_park]
    exact ht.nodup
  · intro h hm
    rw [Pool.reports_park, Pool.withheld_park] at hm
    exact (ht.pool.past_park b h).2 (ht.past h hm)
  · intro h
    have hk := ht.known h
    rw [Pool.reports_park, Pool.withheld_park, hlive, Option.some.injEq, or_right_comm, ← hk]
    simp only [reduceCtorEq, or_false, eq_comm, or_assoc]
  · intro h hm
    obtain ⟨hheld, hdead⟩ := ht.apart h hm
    refine ⟨hheld, Bool.eq_false_iff.2 fun hl => ?_⟩
    rcases (hlive h).1 hl with hl | hl
    · rw [hl] at hdead
      cases hdead
    · exact hsame h hm hl
  · intro h hl
    cases hl
    exact ⟨fun hh => hnew (Or.inl hh), fun hm => hnew (Or.inr hm)⟩

theorem shelve (ht : Tracks s p done due (some h)) (fresh : ∀ e ∈ s.entries, e.1 ≠ key) :
    Tracks (s.insert key h) p done due none := by
  obtain ⟨hheld, hawaited⟩ := ht.alone h rfl
  refine ⟨ht.pool, ht.shelf.insert fresh hheld, ht.nodup, ht.past, ?_, ?_, fun j hj => by cases hj⟩
  · intro j
    rw [← ht.known, holds_insert, Option.some.injEq]
    show (j = h ∨ s.Holds j) ∨ j ∈ s.awaited ∨ none = some j ↔ _
    simp only [reduceCtorEq, or_false, eq_comm (a := h)]
    rw [or_assoc, or_comm, or_assoc]
  · intro j hj
    obtain ⟨hn, hd⟩ := ht.apart j hj
    refine ⟨fun hm => ?_, hd⟩
    rcases (holds_insert s key h j).1 hm with rfl | hm
    · exact hawaited hj
    · exact hn hm

/-! ## Searching -/

section Search

variable {found : Search Buffer Pool}

/-- What is awaited after a search is dead and no longer held. -/
theorem awaited_found (ht : Tracks s p done due none)
    (held : ∀ j, t.Holds j ↔ s.Holds j ∧ j ∉ found.tried)
    (awaited : ∀ j, j ∈ t.awaited ↔ j ∈ s.awaited ∨ j ∈ found.stale.map Prod.snd)
    (stale : ∀ j ∈ found.stale.map Prod.snd, s.Holds j ∧ p.isLive j = false)
    (hj : j ∈ t.awaited) : ¬ t.Holds j ∧ p.isLive j = false := by
  rw [held]
  rcases (awaited j).1 hj with hj | hj
  · exact ⟨fun hh => (ht.apart j hj).1 hh.1, (ht.apart j hj).2⟩
  · exact ⟨fun hh => hh.2 (List.mem_append_left _ hj), (stale j hj).2⟩

/-- A search that comes upon nothing has passed over dead handles, which are awaited. -/
theorem miss (ht : Tracks s p done due none) (sound : t.Sound) (hmiss : found.hit = none)
    (held : ∀ j, t.Holds j ↔ s.Holds j ∧ j ∉ found.tried)
    (awaited : ∀ j, j ∈ t.awaited ↔ j ∈ s.awaited ∨ j ∈ found.stale.map Prod.snd)
    (stale : ∀ j ∈ found.stale.map Prod.snd, s.Holds j ∧ p.isLive j = false) :
    Tracks t p done due none := by
  refine ⟨ht.pool, sound, ht.nodup, ht.past, ?_, ?_, fun j hj => by cases hj⟩
  · -- a handle that was passed over is awaited instead of held
    intro j
    have hj := stale j
    rw [← ht.known, held, awaited]
    simp only [Search.tried, hmiss, Option.toList_none, List.map_nil, List.append_nil]
    grind
  · intro j hj
    exact ht.awaited_found held awaited stale hj

/-- A search that comes upon a buffer takes it, and its handle is not held any longer. -/
theorem hit {hit : Hit Buffer} (ht : Tracks s p done due none) (sound : t.Sound)
    (hhit : found.hit = some hit) (taken : p.take hit.handle = some (hit.value, q))
    (held : ∀ j, t.Holds j ↔ s.Holds j ∧ j ∉ found.tried)
    (awaited : ∀ j, j ∈ t.awaited ↔ j ∈ s.awaited ∨ j ∈ found.stale.map Prod.snd)
    (stale : ∀ j ∈ found.stale.map Prod.snd, s.Holds j ∧ p.isLive j = false) :
    Tracks t q done due none := by
  have hlive : p.isLive hit.handle = true :=
    Pool.isLive_iff.2 ⟨hit.value, Pool.claimed?_of_take taken⟩
  have hlives := Pool.isLive_take taken
  have hreports : q.reports = p.reports := by rw [Pool.eq_of_take taken]
  have hwithheld : q.withheld = p.withheld := by rw [Pool.eq_of_take taken]
  have hwait := fun j (hj : j ∈ t.awaited) => ht.awaited_found held awaited stale hj
  refine ⟨ht.pool.take taken, sound, ?_, ?_, ?_, ?_, fun j hj => by cases hj⟩
  · rw [hreports, hwithheld]
    exact ht.nodup
  · intro j hj
    rw [hreports, hwithheld] at hj
    exact (Pool.past_take taken j).2 (Or.inl (ht.past j hj))
  · intro j
    rw [hreports, hwithheld, hlives, held]
    have hk := ht.known j
    have hj := stale j
    have hw := hwait j
    have htold : j ∈ due ∨ j ∈ p.reports ++ p.withheld → p.isLive j = false := by
      intro hm
      apply Pool.Past.isLive_eq_false
      apply ht.past j
      simp only [List.mem_append] at hm ⊢
      tauto
    simp only [Search.tried, hhit, Option.toList_some, List.map_cons, List.map_nil,
      List.mem_append, List.mem_singleton, reduceCtorEq, or_false, awaited] at hk hw ⊢
    by_cases hjh : j = hit.handle
    · -- the handle that was found is neither held, awaited nor reported any longer
      subst hjh
      grind
    · grind
  · intro j hj
    obtain ⟨hn, hd⟩ := hwait j hj
    refine ⟨hn, Bool.eq_false_iff.2 fun hl => ?_⟩
    rw [((hlives j).1 hl).1] at hd
    cases hd

end Search

/-- A search takes at most one buffer, whose handle leaves the shelf. The handles that it passed
over are awaited from then on. -/
theorem pick (ht : Tracks s p done due none) (least : Nat) :
    Tracks (s.pick least Pool.upgrade p).2 (s.pick least Pool.upgrade p).1.state done due none := by
  have hheld := holds_pick s least Pool.upgrade p
  have hawaited := mem_awaited_pick s least Pool.upgrade p
  have hsound := ht.shelf.pick least Pool.upgrade p
  obtain ⟨hdead, hfound⟩ := search_upgrade (s.above least) p
  have hstale : ∀ j ∈ (s.pick least Pool.upgrade p).1.stale.map Prod.snd,
      s.Holds j ∧ p.isLive j = false := by
    intro j hj
    refine ⟨ht.shelf.holds_of_tried (List.mem_append_left _ hj), ?_⟩
    obtain ⟨e, he, rfl⟩ := List.mem_map.1 hj
    exact hdead e he
  rcases hfound with ⟨hmiss, hstate⟩ | ⟨hit, hhit, taken⟩
  · have hsame : (s.pick least Pool.upgrade p).1.state = p := hstate
    rw [hsame]
    exact ht.miss hsound hmiss hheld hawaited hstale
  · exact ht.hit hsound hhit taken hheld hawaited hstale

end Tracks

end Shelf

end BlobExchange
