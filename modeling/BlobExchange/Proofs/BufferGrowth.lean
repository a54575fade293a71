import BlobExchange.Buffer.Filling
import BlobExchange.Buffer.Script
/-! # How far a buffer grows

Whatever is written into a buffer, its capacity stays or comes to lie within the limit and within
what can be allocated. -/

namespace BlobExchange.Buffer

/-- When there is room, nothing but the capacity may have changed, and that within bounds. -/
theorem makeRoom_ok {b grown : Buffer} {additional : Nat}
    (h : b.makeRoom additional = .ok grown) :
    ∃ capacity, grown = { b with capacity := capacity } ∧ b.length + additional ≤ capacity ∧
      (capacity = b.capacity ∨ capacity ≤ b.policy.limit ∧ capacity ≤ Size.allocatable) := by
  unfold makeRoom at h
  split at h
  · cases h
  · rename_i required hsize
    obtain ⟨-, rfl⟩ := Size.add?_eq_some_iff.1 hsize
    split at h
    · cases h
    · split at h
      · rename_i hroom
        cases h
        exact ⟨_, rfl, hroom, Or.inl rfl⟩
      · unfold grow at h
        split at h
        · cases h
        · rename_i capacity htarget
          obtain ⟨hlarge, hlimit⟩ := GrowthPolicy.target_bounds htarget
          split at h
          · rename_i hallocatable
            cases h
            exact ⟨capacity, rfl, hlarge, Or.inr ⟨hlimit, hallocatable⟩⟩
          · cases h

theorem append_of_give {b after : Buffer} {bytes : Bytes} (h : b.give bytes = .ok after) :
    b.append bytes = .ok after := by
  unfold give at h
  split at h
  · rename_i grown happended
    cases h
    exact happended
  · cases h

/-- A completed instruction has appended something, if only no bytes. -/
theorem append_of_perform {b after : Buffer} {i : Instruction} {note : Note}
    (h : b.perform i = .ok (after, note)) : ∃ bytes, b.append bytes = .ok after := by
  have hnoted : ∀ {bytes : Bytes} {f : Buffer → Buffer × Note}, (∀ grown, (f grown).1 = grown) →
      (b.give bytes).map f = .ok (after, note) → ∃ bytes, b.append bytes = .ok after := by
    intro bytes f hf hmap
    cases hg : b.give bytes with
    | error halt =>
      rw [hg] at hmap
      cases hmap
    | ok grown =>
      rw [hg] at hmap
      have hmade : f grown = (after, note) := Except.ok.inj hmap
      obtain rfl : after = grown := by rw [← hf grown, hmade]
      exact ⟨bytes, append_of_give hg⟩
  cases i with
  | put bytes => exact hnoted (fun _ => rfl) h
  | putByte value => exact hnoted (fun _ => rfl) h
  | putWord value => exact hnoted (fun _ => rfl) h
  | writeAll bytes => exact hnoted (fun _ => rfl) h
  | writeOnce bytes => exact hnoted (fun _ => rfl) h
  | tryPut bytes =>
    simp only [perform] at h
    split at h
    · rename_i grown happended
      cases h
      exact ⟨bytes, happended⟩
    · cases h
      exact ⟨[], rfl⟩
    · cases h
  | flush =>
    cases h
    exact ⟨[], rfl⟩
  | fail e => cases h

/-- What a client may have made of a buffer with one command. -/
inductive Written (b : Buffer) : Buffer → Prop where
  | fill (source : Source) (budget : Option Nat) : b.Written (b.fill source budget).buffer
  | run (script : List Instruction) : b.Written (b.run script).buffer

/-- A later state of a buffer: of the same policy, and grown within bounds if it has grown. -/
structure Grows (b after : Buffer) : Prop where
  policy : after.policy = b.policy
  capacity : after.capacity = b.capacity ∨
    after.capacity ≤ b.policy.limit ∧ after.capacity ≤ Size.allocatable

namespace Grows

variable {b after later : Buffer}

theorem refl (b : Buffer) : b.Grows b := ⟨rfl, Or.inl rfl⟩

theorem trans (hb : b.Grows after) (hafter : after.Grows later) : b.Grows later := by
  refine ⟨hafter.policy.trans hb.policy, ?_⟩
  rcases hafter.capacity with hsame | hgrown
  · rw [hsame]
    exact hb.capacity
  · rw [hb.policy] at hgrown
    exact Or.inr hgrown

theorem put (hb : b.Grows after) (bytes : Bytes) : b.Grows (after.put bytes) :=
  ⟨hb.policy, hb.capacity⟩

theorem makeRoom {additional : Nat} (h : b.makeRoom additional = .ok after) : b.Grows after := by
  obtain ⟨capacity, rfl, -, hsame | ⟨hlimit, hallocatable⟩⟩ := makeRoom_ok h
  · exact ⟨rfl, Or.inl hsame⟩
  · exact ⟨rfl, Or.inr ⟨hlimit, hallocatable⟩⟩

theorem append {bytes : Bytes} (h : b.append bytes = .ok after) : b.Grows after := by
  unfold Buffer.append at h
  split at h
  · cases h
    exact refl b
  · split at h
    · cases h
    · rename_i grown hroom
      cases h
      exact (makeRoom hroom).put bytes

/-! ## Filling -/

theorem probe (b : Buffer) (s : Source) (moved : Nat) : b.Grows (b.probe s moved).buffer := by
  unfold Buffer.probe
  split <;> exact refl b

theorem widened (h : (if b.room = 0 then b.makeRoom 1 else .ok b) = .ok after) :
    b.Grows after := by
  split at h
  · exact makeRoom h
  · cases h
    exact refl b

theorem fillOn (b : Buffer) (s : Source) (budget : Option Nat) (moved : Nat) :
    b.Grows (b.fillOn s budget moved).buffer := by
  fun_induction Buffer.fillOn b s budget moved with
  | case1 => exact refl _
  | case2 => exact refl _
  | case3 b s budget moved hspent hfits grown hwidened => exact widened hwidened
  | case4 b s budget moved hspent hfits grown hwidened x xs rest hr ih =>
    exact ((widened hwidened).put _).trans ih
  | case5 b s budget moved hspent hfits grown hwidened => exact widened hwidened
  | case6 b s budget moved => exact probe b s moved

/-! ## Scripts -/

theorem perform {i : Instruction} {note : Note} (h : b.perform i = .ok (after, note)) :
    b.Grows after := by
  obtain ⟨bytes, happended⟩ := append_of_perform h
  exact append happended

theorem run (b : Buffer) (script : List Instruction) : b.Grows (b.run script).buffer := by
  induction script generalizing b with
  | nil => exact refl b
  | cons i rest ih =>
    cases hp : b.perform i with
    | error halt =>
      simp only [Buffer.run, hp]
      exact refl b
    | ok performed =>
      obtain ⟨after, note⟩ := performed
      simp only [Buffer.run, hp]
      exact (perform hp).trans (ih after)

theorem written (h : b.Written after) : b.Grows after := by
  cases h with
  | fill source budget => exact fillOn b source budget 0
  | run script => exact run b script

end Grows

end BlobExchange.Buffer
