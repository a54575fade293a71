import BlobExchange.Idle.Pool
/-! # The life of a handle

A live handle becomes past when its buffer is taken and stays so (`past_take`, `past_park`). The
handle of a newly parked buffer was neither. -/

namespace BlobExchange.Pool

/-- The handle's slot has moved on to a later generation. -/
def Past (p : Pool) (h : Handle) : Prop :=
  ∃ slot, p.slots[h.index]? = some slot ∧ h.generation < slot.generation

/-- The free list holds the empty slots, each once, and the queue holds live and past handles. -/
structure Sound (p : Pool) : Prop where
  mem_free : ∀ i, i ∈ p.free ↔ ∃ generation, p.slots[i]? = some ⟨generation, none⟩
  nodup_free : p.free.Nodup
  parked : ∀ h ∈ p.order, p.isLive h = true ∨ p.Past h

theorem sound_empty : Sound empty :=
  ⟨fun i => by simp [empty], List.nodup_nil, fun _ hm => absurd hm List.not_mem_nil⟩

variable {p : Pool} {h j : Handle} {b : Buffer}

theorem claimed?_eq_some :
    p.claimed? h = some b ↔ p.slots[h.index]? = some ⟨h.generation, some b⟩ := by
  unfold claimed?
  cases hs : p.slots[h.index]? with
  | none => simp
  | some slot =>
    obtain ⟨generation, buffer⟩ := slot
    by_cases hg : generation = h.generation
    · subst hg; simp
    · simp [hg]

theorem isLive_iff : p.isLive h = true ↔ ∃ b, p.claimed? h = some b :=
  Option.isSome_iff_exists

theorem isLive_eq_false_iff : p.isLive h = false ↔ p.claimed? h = none := by
  rw [isLive, Option.isSome_eq_false_iff, Option.isNone_iff_eq_none]

theorem Past.claimed?_eq_none (hp : p.Past h) : p.claimed? h = none := by
  obtain ⟨slot, hs, hlt⟩ := hp
  unfold claimed?
  rw [hs]
  exact if_neg (Nat.ne_of_gt hlt)

theorem Past.isLive_eq_false (hp : p.Past h) : p.isLive h = false :=
  isLive_eq_false_iff.2 hp.claimed?_eq_none

section Congr

variable {q : Pool}

theorem isLive_congr (slots : q.slots = p.slots) : q.isLive = p.isLive := by
  funext j
  unfold isLive claimed?
  rw [slots]

theorem past_congr (slots : q.slots = p.slots) : q.Past = p.Past := by
  funext j
  unfold Past
  rw [slots]

/-- The slots and the free list make a pool sound, and a queue cut short keeps it so. -/
theorem Sound.congr (hp : p.Sound) (slots : q.slots = p.slots) (free : q.free = p.free)
    (order : q.order ⊆ p.order) : q.Sound := by
  refine ⟨?_, ?_, ?_⟩
  · intro i
    rw [free, slots]
    exact hp.mem_free i
  · rw [free]
    exact hp.nodup_free
  · intro j hj
    rw [isLive_congr slots, past_congr slots]
    exact hp.parked j (order hj)

end Congr

/-! ## Taking -/

theorem take_eq_none_iff : p.take h = none ↔ p.claimed? h = none := by
  unfold take
  cases p.claimed? h <;> simp

section Take

variable {q : Pool}

theorem claimed?_of_take (ht : p.take h = some (b, q)) : p.claimed? h = some b := by
  unfold take at ht
  cases hc : p.claimed? h with
  | none => simp [hc] at ht
  | some c =>
    simp only [hc, Option.some.injEq, Prod.mk.injEq] at ht
    rw [ht.1]

theorem eq_of_take (ht : p.take h = some (b, q)) :
    q = { p with
      slots := p.slots.set h.index ⟨h.generation + 1, none⟩
      free := h.index :: p.free
      idleBytes := p.idleBytes - b.capacity
      idleBuffers := p.idleBuffers - 1 } := by
  have hc := claimed?_of_take ht
  simp only [take, hc, Option.some.injEq, Prod.mk.injEq] at ht
  exact ht.2.symm

theorem slots_take (ht : p.take h = some (b, q)) (i : Nat) :
    q.slots[i]? = if i = h.index then some ⟨h.generation + 1, none⟩ else p.slots[i]? := by
  have hs := claimed?_eq_some.1 (claimed?_of_take ht)
  have hlt : h.index < p.slots.length := (List.getElem?_eq_some_iff.1 hs).1
  rw [eq_of_take ht]
  by_cases hi : i = h.index
  · subst hi
    simp [hlt]
  · rw [if_neg hi, List.getElem?_set_ne (fun e => hi e.symm)]

theorem claimed?_take (ht : p.take h = some (b, q)) (j : Handle) :
    q.claimed? j = if j = h then none else p.claimed? j := by
  have hs := claimed?_eq_some.1 (claimed?_of_take ht)
  by_cases hj : j = h
  · subst hj
    rw [if_pos rfl]
    unfold claimed?
    rw [slots_take ht, if_pos rfl]
    simp
  · rw [if_neg hj]
    unfold claimed?
    rw [slots_take ht]
    by_cases hi : j.index = h.index
    · -- the slot was in the generation of `h`, so it is not in that of `j` either
      have hg : h.generation ≠ j.generation := fun e => hj (Handle.ext hi e.symm)
      rw [if_pos hi, hi, hs]
      simp [hg]
    · rw [if_neg hi]

theorem isLive_take (ht : p.take h = some (b, q)) (j : Handle) :
    q.isLive j = true ↔ p.isLive j = true ∧ j ≠ h := by
  simp only [isLive_iff, claimed?_take ht]
  by_cases hj : j = h <;> simp [hj]

theorem past_take (ht : p.take h = some (b, q)) (j : Handle) :
    q.Past j ↔ p.Past j ∨ j = h := by
  have hs := claimed?_eq_some.1 (claimed?_of_take ht)
  unfold Past
  rw [slots_take ht]
  by_cases hi : j.index = h.index
  · -- the slot moved on by one generation, which made past just the one that was taken
    rw [if_pos hi, hi, hs]
    constructor
    · rintro ⟨slot, hslot, hlt⟩
      cases hslot
      rcases Nat.lt_or_eq_of_le (Nat.le_of_lt_succ hlt) with hlt | heq
      · exact Or.inl ⟨_, rfl, hlt⟩
      · exact Or.inr (Handle.ext hi heq)
    · rintro (⟨slot, hslot, hlt⟩ | rfl)
      · cases hslot
        exact ⟨_, rfl, Nat.lt_succ_of_lt hlt⟩
      · exact ⟨_, rfl, Nat.lt_succ_self _⟩
  · rw [if_neg hi]
    constructor
    · exact Or.inl
    · rintro (hp | rfl)
      · exact hp
      · exact absurd rfl hi

theorem Sound.take (hp : p.Sound) (ht : p.take h = some (b, q)) : q.Sound := by
  have hs := claimed?_eq_some.1 (claimed?_of_take ht)
  have hfree : q.free = h.index :: p.free := by rw [eq_of_take ht]
  have hnew : h.index ∉ p.free := by
    intro hm
    obtain ⟨generation, hg⟩ := (hp.mem_free _).1 hm
    rw [hs] at hg
    simp at hg
  refine ⟨fun i => ?_, by rw [hfree]; exact List.nodup_cons.2 ⟨hnew, hp.nodup_free⟩, ?_⟩
  · rw [hfree, List.mem_cons, hp.mem_free, slots_take ht]
    by_cases hi : i = h.index
    · simp [hi]
    · simp [hi]
  · intro j hj
    have horder : q.order = p.order := by rw [eq_of_take ht]
    rw [horder] at hj
    rw [isLive_take ht, past_take ht]
    by_cases hjh : j = h
    · exact Or.inr (Or.inr hjh)
    · exact (hp.parked j hj).imp (fun hl => ⟨hl, hjh⟩) Or.inl

end Take

/-! ## Parking -/

theorem sweep_eq (p : Pool) :
    p.sweep = p ∨ p.sweep = { p with order := p.order.filter p.isLive } := by
  unfold sweep
  split
  · exact Or.inl rfl
  · exact Or.inr rfl

@[simp] theorem slots_sweep (p : Pool) : p.sweep.slots = p.slots := by
  rcases sweep_eq p with h | h <;> rw [h]

@[simp] theorem free_sweep (p : Pool) : p.sweep.free = p.free := by
  rcases sweep_eq p with h | h <;> rw [h]

@[simp] theorem reports_sweep (p : Pool) : p.sweep.reports = p.reports := by
  rcases sweep_eq p with h | h <;> rw [h]

@[simp] theorem withheld_sweep (p : Pool) : p.sweep.withheld = p.withheld := by
  rcases sweep_eq p with h | h <;> rw [h]

@[simp] theorem slots_park (p : Pool) (b : Buffer) : (p.park b).2.slots = (p.place b).slots := by
  simp [park]

@[simp] theorem free_park (p : Pool) (b : Buffer) : (p.park b).2.free = (p.place b).free := by
  simp [park]

theorem order_place (p : Pool) (b : Buffer) : (p.place b).order = p.order := by
  unfold place
  split <;> rfl

theorem reports_place (p : Pool) (b : Buffer) : (p.place b).reports = p.reports := by
  unfold place
  split <;> rfl

theorem withheld_place (p : Pool) (b : Buffer) : (p.place b).withheld = p.withheld := by
  unfold place
  split <;> rfl

@[simp] theorem reports_park (p : Pool) (b : Buffer) : (p.park b).2.reports = p.reports := by
  simp [park, reports_place]

@[simp] theorem withheld_park (p : Pool) (b : Buffer) : (p.park b).2.withheld = p.withheld := by
  simp [park, withheld_place]

/-- The next slot is empty, in the generation of the next handle, or it is the first new one. -/
theorem Sound.slots_vacancy (hp : p.Sound) :
    p.slots[p.vacancy.index]? = some ⟨p.vacancy.generation, none⟩ ∨
      p.free = [] ∧ p.vacancy = ⟨p.slots.length, 0⟩ := by
  unfold vacancy
  cases hf : p.free with
  | nil => exact Or.inr ⟨rfl, rfl⟩
  | cons i rest =>
    obtain ⟨generation, hg⟩ := (hp.mem_free i).1 (by rw [hf]; exact List.mem_cons_self)
    exact Or.inl (by simp [hg])

theorem Sound.slots_place (hp : p.Sound) (b : Buffer) (i : Nat) :
    (p.place b).slots[i]? =
      if i = p.vacancy.index then some ⟨p.vacancy.generation, some b⟩ else p.slots[i]? := by
  have hv := hp.slots_vacancy
  unfold place
  cases hf : p.free with
  | nil =>
    have hv : p.vacancy = ⟨p.slots.length, 0⟩ := by unfold vacancy; rw [hf]
    rw [hv]
    by_cases hi : i = p.slots.length
    · simp [hi]
    · rw [if_neg hi]
      simp only [List.getElem?_append]
      split
      · rfl
      · rename_i hlt
        rw [List.getElem?_eq_none (Nat.le_of_not_lt hlt)]
        exact List.getElem?_eq_none (by simp; omega)
  | cons j rest =>
    have hj : p.vacancy.index = j := by unfold vacancy; rw [hf]
    rw [hf, hj] at hv
    rcases hv with hv | ⟨hv, -⟩
    · have hlt : j < p.slots.length := (List.getElem?_eq_some_iff.1 hv).1
      rw [hj]
      by_cases hi : i = j
      · simp [hi, hlt]
      · rw [if_neg hi, List.getElem?_set_ne (fun e => hi e.symm)]
    · simp at hv

theorem Sound.claimed?_vacancy (hp : p.Sound) : p.claimed? p.vacancy = none := by
  unfold claimed?
  rcases hp.slots_vacancy with hv | ⟨-, hv⟩
  · rw [hv]; simp
  · rw [hv]; simp

theorem Sound.not_past_vacancy (hp : p.Sound) : ¬ p.Past p.vacancy := by
  rintro ⟨slot, hs, hlt⟩
  rcases hp.slots_vacancy with hv | ⟨-, hv⟩
  · rw [hv] at hs
    cases hs
    exact Nat.lt_irrefl _ hlt
  · rw [hv] at hs
    simp at hs

theorem Sound.claimed?_park (hp : p.Sound) (b : Buffer) (j : Handle) :
    (p.park b).2.claimed? j = if j = p.vacancy then some b else p.claimed? j := by
  by_cases hj : j = p.vacancy
  · rw [if_pos hj, claimed?_eq_some, slots_park, hp.slots_place, hj, if_pos rfl]
  · rw [if_neg hj]
    unfold claimed?
    rw [slots_park, hp.slots_place]
    by_cases hi : j.index = p.vacancy.index
    · have hg : p.vacancy.generation ≠ j.generation := fun e => hj (Handle.ext hi e.symm)
      rw [if_pos hi, hi]
      rcases hp.slots_vacancy with hv | ⟨-, hv⟩
      · rw [hv]; simp [hg]
      · rw [hv]; simp [hv] at hg ⊢; exact hg
    · rw [if_neg hi]

theorem Sound.isLive_park (hp : p.Sound) (b : Buffer) (j : Handle) :
    (p.park b).2.isLive j = true ↔ p.isLive j = true ∨ j = p.vacancy := by
  simp only [isLive_iff, hp.claimed?_park]
  by_cases hj : j = p.vacancy <;> simp [hj]

theorem Sound.past_park (hp : p.Sound) (b : Buffer) (j : Handle) :
    (p.park b).2.Past j ↔ p.Past j := by
  unfold Past
  rw [slots_park, hp.slots_place]
  by_cases hi : j.index = p.vacancy.index
  · rw [if_pos hi, hi]
    rcases hp.slots_vacancy with hv | ⟨-, hv⟩
    · rw [hv]; simp
    · rw [hv]; simp
  · rw [if_neg hi]

theorem mem_order_sweep (hj : j ∈ p.sweep.order) : j ∈ p.order := by
  rcases sweep_eq p with h | h
  · rwa [h] at hj
  · rw [h] at hj
    exact (List.mem_filter.1 hj).1

theorem mem_order_park (hj : j ∈ (p.park b).2.order) : j ∈ p.order ∨ j = p.vacancy := by
  have hm := mem_order_sweep hj
  rw [List.mem_append, List.mem_singleton, order_place] at hm
  exact hm

theorem Sound.park (hp : p.Sound) (b : Buffer) : (p.park b).2.Sound := by
  have hfree : (p.park b).2.free = p.free.tail := by
    rw [free_park]
    unfold place
    cases p.free <;> rfl
  refine ⟨fun i => ?_, by rw [hfree]; exact hp.nodup_free.tail, fun j hj => ?_⟩
  rotate_left
  · rw [hp.isLive_park, hp.past_park]
    rcases mem_order_park hj with hj | hj
    · exact (hp.parked j hj).imp_left Or.inl
    · exact Or.inl (Or.inr hj)
  rw [hfree, slots_park, hp.slots_place]
  by_cases hi : i = p.vacancy.index
  · rw [if_pos hi]
    simp only [Option.some.injEq, Slot.mk.injEq, reduceCtorEq, and_false, exists_false, iff_false]
    intro hm
    have hn := hp.nodup_free
    cases hf : p.free with
    | nil => simp [hf] at hm
    | cons j rest =>
      have hv : p.vacancy.index = j := by unfold vacancy; rw [hf]
      rw [hf, List.tail_cons, hi, hv] at hm
      rw [hf, List.nodup_cons] at hn
      exact hn.1 hm
  · rw [if_neg hi, ← hp.mem_free]
    cases hf : p.free with
    | nil => simp
    | cons j rest =>
      have hv : p.vacancy.index = j := by unfold vacancy; rw [hf]
      rw [hv] at hi
      simp [hi]

end BlobExchange.Pool
