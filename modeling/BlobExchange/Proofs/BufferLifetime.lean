import BlobExchange.Proofs.TwinBuffers
/-! # What becomes of a buffer

A buffer may be created larger than its policy would let it grow, so the two bounds on its content
are independent. -/

namespace BlobExchange

/-- What is asked of a buffer. -/
inductive BufferCommand where
  | reserve (additional : Nat)
  | append (bytes : Bytes)
  | fill (source : Source) (budget : Option Nat)
  | run (script : List Instruction)
  | empty

namespace Buffer

/-- The buffer after a command. Without room it is as it was. -/
def after (b : Buffer) : BufferCommand → Buffer
  | .reserve additional => (b.makeRoom additional).toOption.getD b
  | .append bytes => (b.append bytes).toOption.getD b
  | .fill source budget => (b.fill source budget).buffer
  | .run script => (b.run script).buffer
  | .empty => b.emptied

/-- A buffer that was created, with any capacity and policy, and given any commands since. -/
inductive Reachable : Buffer → Prop where
  | created {b : Buffer} {capacity : Nat} {policy : GrowthPolicy}
    (h : (create capacity policy : Except (Halt BufferError) Buffer) = .ok b) : Reachable b
  | after {b : Buffer} (h : Reachable b) (command : BufferCommand) : Reachable (b.after command)

/-- A buffer holds what it has the capacity for and what is permitted. -/
structure Sound (b : Buffer) : Prop where
  held : b.length ≤ b.capacity
  permitted : b.length ≤ b.policy.limit
  allocatable : b.capacity ≤ Size.allocatable

namespace Sound

variable {b grown : Buffer} {bytes : Bytes}

theorem create {capacity : Nat} {policy : GrowthPolicy}
    (h : (Buffer.create capacity policy : Except (Halt BufferError) Buffer) = .ok b) : b.Sound := by
  unfold Buffer.create at h
  split at h
  · rename_i hcapacity
    cases h
    exact ⟨Nat.zero_le _, Nat.zero_le _, hcapacity⟩
  · cases h

theorem emptied (hb : b.Sound) : b.emptied.Sound :=
  ⟨Nat.zero_le _, Nat.zero_le _, hb.allocatable⟩

theorem makeRoom {additional : Nat} (hb : b.Sound) (h : b.makeRoom additional = .ok grown) :
    grown.Sound := by
  obtain ⟨capacity, rfl, hroom, hcapacity⟩ := makeRoom_ok h
  refine ⟨?_, hb.permitted, ?_⟩
  · show b.length ≤ capacity
    omega
  · rcases hcapacity with rfl | ⟨-, hallocatable⟩
    · exact hb.allocatable
    · exact hallocatable

theorem put (hb : b.Sound) (hroom : b.length + bytes.length ≤ b.capacity)
    (hpermitted : b.length + bytes.length ≤ b.policy.limit) : (b.put bytes).Sound := by
  refine ⟨?_, ?_, hb.allocatable⟩
  · rw [length_put]
    exact hroom
  · rw [length_put]
    exact hpermitted

theorem append (hb : b.Sound) (h : b.append bytes = .ok grown) : grown.Sound := by
  unfold Buffer.append at h
  split at h
  · cases h
    exact hb
  · split at h
    · cases h
    · rename_i widened hwidened
      cases h
      have hpermitted := fits_iff.1 (fits_of_makeRoom hwidened)
      have hsound := hb.makeRoom hwidened
      obtain ⟨capacity, rfl, hroom, -⟩ := makeRoom_ok hwidened
      exact hsound.put hroom hpermitted

theorem widened (hb : b.Sound) (h : (if b.room = 0 then b.makeRoom 1 else .ok b) = .ok grown) :
    grown.Sound := by
  split at h
  · exact hb.makeRoom h
  · cases h
    exact hb

/-- What is read in one window can be put. -/
theorem put_window {budget : Option Nat} (hb : b.Sound) (hbytes : bytes.length ≤ b.window budget) :
    (b.put bytes).Sound := by
  have hroom : atMost budget b.room ≤ b.room := atMost_le budget b.room
  have hheld := hb.held
  have hpermitted := hb.permitted
  unfold window at hbytes
  unfold room at hroom hbytes
  exact hb.put (by omega) (by omega)

theorem probe (hb : b.Sound) (s : Source) (moved : Nat) : (b.probe s moved).buffer.Sound := by
  unfold Buffer.probe
  split <;> exact hb

theorem fillOn (hb : b.Sound) (s : Source) (budget : Option Nat) (moved : Nat) :
    (b.fillOn s budget moved).buffer.Sound := by
  fun_induction Buffer.fillOn b s budget moved with
  | case1 => exact hb
  | case2 => exact hb
  | case3 b s budget moved hbudget hfits grown hwidened => exact hb.widened hwidened
  | case4 b s budget moved hbudget hfits grown hwidened x xs rest hr ih =>
    exact ih ((hb.widened hwidened).put_window (Source.length_of_read hr))
  | case5 b s budget moved hbudget hfits grown hwidened => exact hb.widened hwidened
  | case6 b s budget moved => exact hb.probe s moved

theorem run (hb : b.Sound) (script : List Instruction) : (b.run script).buffer.Sound := by
  induction script generalizing b with
  | nil => exact hb
  | cons i rest ih =>
    cases hp : b.perform i with
    | error halt =>
      simp only [Buffer.run, hp]
      exact hb
    | ok performed =>
      obtain ⟨after, note⟩ := performed
      simp only [Buffer.run, hp]
      obtain ⟨bytes, happended⟩ := append_of_perform hp
      exact ih (hb.append happended)

theorem after (hb : b.Sound) (command : BufferCommand) : (b.after command).Sound := by
  cases command with
  | reserve additional =>
    show ((b.makeRoom additional).toOption.getD b).Sound
    cases hroom : b.makeRoom additional with
    | error halt => exact hb
    | ok grown => exact hb.makeRoom hroom
  | append bytes =>
    show ((b.append bytes).toOption.getD b).Sound
    cases happended : b.append bytes with
    | error halt => exact hb
    | ok grown => exact hb.append happended
  | fill source budget => exact hb.fillOn source budget 0
  | run script => exact hb.run script
  | empty => exact hb.emptied

theorem addHeld_one (hb : b.Sound) : Size.addHeld b.length 1 = b.length + 1 := by
  have hheld := hb.held
  have hallocatable := hb.allocatable
  unfold Size.allocatable at hallocatable
  unfold Size.addHeld Size.largest
  omega

end Sound

theorem Reachable.sound {b : Buffer} (hb : b.Reachable) : b.Sound := by
  induction hb with
  | created h => exact .create h
  | after _ command ih => exact ih.after command

end Buffer

end BlobExchange
