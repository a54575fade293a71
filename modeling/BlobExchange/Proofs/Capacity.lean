import BlobExchange.Proofs.Scripting
import Mathlib.Logic.Relation
/-! # How a capacity changes

Every command goes by steps: widening for want of room, putting, emptying (`steps_after`). -/

namespace BlobExchange

theorem GrowthPolicy.target_eq_ok_iff {p : GrowthPolicy} {current required capacity : Nat} :
    p.target current required = .ok capacity ↔
      required ≤ p.limit ∧ min (max (p.enlarge current) required) p.limit = capacity := by
  unfold target
  split
  · rename_i hlarge
    exact iff_of_false nofun fun h => absurd h.1 (Nat.not_le.2 hlarge)
  · rename_i hpermitted
    rw [Except.ok.injEq]
    exact (and_iff_right (Nat.not_lt.1 hpermitted)).symm

/-- For how many further bytes a command may need room at a time. -/
def BufferCommand.Asks : BufferCommand → Nat → Prop
  | reserve additional, n => n = additional
  | append bytes, n => n = bytes.length
  | fill _ _, n => n = 1
  | run script, n => ∃ i ∈ script, n = i.bytes.length
  | empty, _ => False

namespace Buffer

variable {b grown next : Buffer} {n : Nat} {bytes : Bytes} {command : BufferCommand}

/-! ## Making room -/

/-- Permitted room is there already, or the buffer grows. -/
theorem makeRoom_permitted (h : b.length + n ≤ b.policy.limit) :
    b.makeRoom n = if b.length + n ≤ b.capacity then .ok b else b.grow (b.length + n) := by
  have hsize : Size.add? b.length n = some (b.length + n) :=
    Size.add?_eq_some_iff.2 ⟨Nat.le_trans h b.policy.limit_le_largest, rfl⟩
  simp only [makeRoom, hsize, Nat.not_lt.2 h, if_false]

theorem grow_ok_iff {required : Nat} :
    b.grow required = .ok grown ↔ ∃ capacity, b.policy.target b.capacity required = .ok capacity ∧
      capacity ≤ Size.allocatable ∧ grown = { b with capacity := capacity } := by
  unfold grow
  cases htarget : b.policy.target b.capacity required with
  | error e => simp
  | ok capacity =>
    by_cases hallocatable : capacity ≤ Size.allocatable
    · simp [hallocatable, eq_comm]
    · simp [hallocatable]

theorem grow_overflow_iff {required : Nat} :
    b.grow required = .error .overflow ↔
      ∃ capacity, b.policy.target b.capacity required = .ok capacity ∧
        Size.allocatable < capacity := by
  unfold grow
  cases htarget : b.policy.target b.capacity required with
  | error e => simp
  | ok capacity =>
    by_cases hallocatable : capacity ≤ Size.allocatable
    · simp [hallocatable, Nat.not_lt.2 hallocatable]
    · simp [hallocatable, Nat.not_le.1 hallocatable]

theorem makeRoom_ok_iff :
    b.makeRoom n = .ok grown ↔
      b.length + n ≤ b.capacity ∧ b.length + n ≤ b.policy.limit ∧ grown = b ∨
        b.capacity < b.length + n ∧
          ∃ capacity, b.policy.target b.capacity (b.length + n) = .ok capacity ∧
            capacity ≤ Size.allocatable ∧ grown = { b with capacity := capacity } := by
  by_cases hpermitted : b.length + n ≤ b.policy.limit
  · rw [makeRoom_permitted hpermitted]
    by_cases hroom : b.length + n ≤ b.capacity
    · simp [hroom, hpermitted, Nat.not_lt.2 hroom, eq_comm]
    · rw [if_neg hroom, grow_ok_iff]
      simp [hroom, Nat.not_le.1 hroom]
  · rw [makeRoom_refused (fun hfits => hpermitted (fits_iff.1 hfits))]
    simp [GrowthPolicy.target_eq_ok_iff, hpermitted]

/-- Room is refused just if the total is more than is permitted, which is so if it is no size. -/
theorem makeRoom_failed_iff {e : BufferError} :
    b.makeRoom n = .error (.failed e) ↔
      (b.policy.limit < b.length + n ∨ Size.largest < b.length + n) ∧
        e = .capacityExceeded (Size.addHeld b.length n) b.policy.limit := by
  have hlargest := b.policy.limit_le_largest
  by_cases hfits : b.fits n = true
  · have hpermitted := fits_iff.1 hfits
    refine iff_of_false ?_ (by omega)
    intro h
    cases makeRoom_error hfits h
  · rw [makeRoom_refused hfits]
    rw [fits_iff, Nat.not_le] at hfits
    simp [hfits, eq_comm]

theorem makeRoom_overflow_iff :
    b.makeRoom n = .error .overflow ↔
      b.capacity < b.length + n ∧
        ∃ capacity, b.policy.target b.capacity (b.length + n) = .ok capacity ∧
          Size.allocatable < capacity := by
  by_cases hpermitted : b.length + n ≤ b.policy.limit
  · rw [makeRoom_permitted hpermitted]
    by_cases hroom : b.length + n ≤ b.capacity
    · simp [hroom, Nat.not_lt.2 hroom]
    · rw [if_neg hroom, grow_overflow_iff]
      simp [Nat.not_le.1 hroom]
  · rw [makeRoom_refused (fun hfits => hpermitted (fits_iff.1 hfits))]
    simp [GrowthPolicy.target_eq_ok_iff, hpermitted]

/-- What becomes of a request for room. It is refused just if the total is not permitted or no size.
A buffer that is large enough is left alone; another grows to just what the policy sets, or that is
too large to allocate. Without room the buffer is as it was. -/
structure Reserves (b : Buffer) (n : Nat) : Prop where
  refused : ∀ e, b.makeRoom n = .error (.failed e) ↔
    (b.policy.limit < b.length + n ∨ Size.largest < b.length + n) ∧
      e = .capacityExceeded (Size.addHeld b.length n) b.policy.limit
  granted : ∀ grown, b.makeRoom n = .ok grown ↔
    b.length + n ≤ b.capacity ∧ b.length + n ≤ b.policy.limit ∧ grown = b ∨
      b.capacity < b.length + n ∧
        ∃ capacity, b.policy.target b.capacity (b.length + n) = .ok capacity ∧
          capacity ≤ Size.allocatable ∧ grown = { b with capacity := capacity }
  overflows : b.makeRoom n = .error .overflow ↔
    b.capacity < b.length + n ∧
      ∃ capacity, b.policy.target b.capacity (b.length + n) = .ok capacity ∧
        Size.allocatable < capacity
  unchanged : ∀ halt, b.makeRoom n = .error halt → b.after (.reserve n) = b

theorem reserves (b : Buffer) (n : Nat) : b.Reserves n := by
  refine ⟨fun e => makeRoom_failed_iff, fun grown => makeRoom_ok_iff, makeRoom_overflow_iff, ?_⟩
  intro halt h
  simp [Buffer.after, h, Except.toOption]

/-! ## Steps -/

/-- One step of a command. A buffer is widened only for room that the command asks for and that it
does not have, and then to the capacity that its policy sets, which is between what is required and
the limit. Bytes are put only where there is room. -/
inductive Step (command : BufferCommand) (b : Buffer) : Buffer → Prop where
  | widen {n capacity : Nat} (asked : command.Asks n) (short : b.capacity < b.length + n)
      (target : b.policy.target b.capacity (b.length + n) = .ok capacity)
      (bounds : b.length + n ≤ capacity ∧ capacity ≤ b.policy.limit)
      (allocatable : capacity ≤ Size.allocatable) : b.Step command { b with capacity := capacity }
  | put {bytes : Bytes} (room : b.length + bytes.length ≤ b.capacity)
      (permitted : b.length + bytes.length ≤ b.policy.limit) : b.Step command (b.put bytes)
  | emptied (asked : command = .empty) : b.Step command b.emptied

/-- What a command does, step by step. -/
abbrev Steps (command : BufferCommand) : Buffer → Buffer → Prop :=
  Relation.ReflTransGen (Step command)

theorem steps_makeRoom (asked : command.Asks n) (h : b.makeRoom n = .ok grown) :
    Steps command b grown := by
  rcases makeRoom_ok_iff.1 h with ⟨-, -, rfl⟩ | ⟨short, capacity, htarget, hallocatable, rfl⟩
  · exact .refl
  · exact .single (.widen asked short htarget (GrowthPolicy.target_bounds htarget) hallocatable)

theorem steps_append (asked : command.Asks bytes.length) (h : b.append bytes = .ok next) :
    Steps command b next := by
  by_cases hnil : bytes = []
  · subst hnil
    cases h
    exact .refl
  · rw [append_of_ne_nil hnil] at h
    cases hroom : b.makeRoom bytes.length with
    | error halt =>
      rw [hroom] at h
      cases h
    | ok grown =>
      rw [hroom] at h
      cases h
      have hpermitted := fits_iff.1 (fits_of_makeRoom hroom)
      obtain ⟨capacity, hgrown, hlarge, -⟩ := makeRoom_ok hroom
      refine (steps_makeRoom asked hroom).tail (.put ?_ ?_)
      · rw [hgrown]
        exact hlarge
      · rw [hgrown]
        exact hpermitted

/-- A filling widens a full buffer for one byte, and puts what it reads where there is room. -/
theorem steps_fillOn (asked : command.Asks 1) (b : Buffer) (s : Source) (budget : Option Nat)
    (moved : Nat) : Steps command b (b.fillOn s budget moved).buffer := by
  have hwiden : ∀ {b grown : Buffer}, (if b.room = 0 then b.makeRoom 1 else .ok b) = .ok grown →
      Steps command b grown := by
    intro b grown h
    split at h
    · exact steps_makeRoom asked h
    · cases h
      exact .refl
  fun_induction fillOn b s budget moved with
  | case1 => exact .refl
  | case2 => exact .refl
  | case3 b s budget moved hspent hfits grown hwidened => exact hwiden hwidened
  | case4 b s budget moved hspent hfits grown hwidened x xs rest hr ih =>
    have hread := Source.length_of_read hr
    have hroom : atMost budget grown.room ≤ grown.room := atMost_le budget grown.room
    have hsome : 0 < (x :: xs).length := Nat.succ_pos _
    unfold window at hread
    unfold room at hroom hread
    refine ((hwiden hwidened).tail (.put ?_ ?_)).trans ih
    · omega
    · omega
  | case5 b s budget moved hspent hfits grown hwidened => exact hwiden hwidened
  | case6 b s budget moved =>
    unfold probe
    split <;> exact .refl

theorem steps_course {completed : List (Instruction × Note)}
    (asked : ∀ c ∈ completed, command.Asks c.1.bytes.length) (h : b.Course completed next) :
    Steps command b next := by
  induction h with
  | idle => exact .refl
  | next first later ih =>
    obtain ⟨hfirst, hrest⟩ := List.forall_mem_cons.1 asked
    have hlater := ih hrest
    cases first with
    | written onward takes appended => exact (steps_append hfirst appended).trans hlater
    | ignored => exact hlater

theorem steps_run (b : Buffer) (script : List Instruction)
    (asked : ∀ i ∈ script, command.Asks i.bytes.length) :
    Steps command b (b.run script).buffer := by
  obtain ⟨completed, left, hscript, -, hcourse, -⟩ := exists_course b script
  have hcompleted : ∀ c ∈ completed, command.Asks c.1.bytes.length := by
    intro c hc
    apply asked
    rw [hscript]
    exact List.mem_append_left _ (List.mem_map_of_mem hc)
  exact steps_course hcompleted hcourse

theorem steps_after (b : Buffer) (command : BufferCommand) :
    Steps command b (b.after command) := by
  cases command with
  | reserve additional =>
    show Steps _ b ((b.makeRoom additional).toOption.getD b)
    cases hroom : b.makeRoom additional with
    | error halt => exact .refl
    | ok grown => exact steps_makeRoom rfl hroom
  | append bytes =>
    show Steps _ b ((b.append bytes).toOption.getD b)
    cases happended : b.append bytes with
    | error halt => exact .refl
    | ok grown => exact steps_append rfl happended
  | fill source budget =>
    have asked : (BufferCommand.fill source budget).Asks 1 := rfl
    exact steps_fillOn asked b source budget 0
  | run script => exact steps_run b script fun i hi => ⟨i, hi, rfl⟩
  | empty => exact .single (.emptied rfl)

/-! ## Bounds -/

/-- A buffer within the bounds of its policy and of the capacity that it was created with. -/
structure KeepsWithin (created : Nat) (policy : GrowthPolicy) (b : Buffer) : Prop where
  same : b.policy = policy
  permitted : b.length ≤ policy.limit
  held : b.length ≤ b.capacity
  room : b.length + b.room = b.capacity
  lower : created ≤ b.capacity
  upper : b.capacity ≤ max created policy.limit

theorem Step.capacity_le (h : b.Step command next) : b.capacity ≤ next.capacity := by
  cases h with
  | @widen n capacity asked short target bounds allocatable =>
    show b.capacity ≤ capacity
    omega
  | put => exact Nat.le_refl _
  | emptied => exact Nat.le_refl _

theorem Steps.capacity_le (h : Steps command b next) : b.capacity ≤ next.capacity := by
  induction h with
  | refl => exact Nat.le_refl _
  | tail _ hstep ih => exact Nat.le_trans ih hstep.capacity_le

namespace KeepsWithin

variable {created : Nat} {policy : GrowthPolicy}

theorem step (hb : KeepsWithin created policy b) (h : b.Step command next) :
    KeepsWithin created policy next := by
  have hlower := Nat.le_trans hb.lower h.capacity_le
  obtain ⟨rfl, hpermitted, hheld, -, -, hupper⟩ := hb
  cases h with
  | @widen n capacity asked short target bounds allocatable =>
    have held : b.length ≤ capacity := by omega
    exact ⟨rfl, hpermitted, held, Nat.add_sub_cancel' held, hlower,
      Nat.le_trans bounds.2 (Nat.le_max_right _ _)⟩
  | @put bytes room permitted =>
    rw [← length_put] at room permitted
    exact ⟨rfl, permitted, room, Nat.add_sub_cancel' room, hlower, hupper⟩
  | emptied => exact ⟨rfl, Nat.zero_le _, Nat.zero_le _, Nat.zero_add _, hlower, hupper⟩

theorem steps (hb : KeepsWithin created policy b) (h : Steps command b next) :
    KeepsWithin created policy next := by
  induction h with
  | refl => exact hb
  | tail _ hstep ih => exact ih.step hstep

theorem create (h : (create created policy : Except (Halt BufferError) Buffer) = .ok b) :
    KeepsWithin created policy b := by
  unfold Buffer.create at h
  split at h
  · cases h
    exact ⟨rfl, Nat.zero_le _, Nat.zero_le _, Nat.zero_add _, Nat.le_refl _, Nat.le_max_left _ _⟩
  · cases h

end KeepsWithin

/-- The buffer after commands. -/
def afterAll (b : Buffer) (commands : List BufferCommand) : Buffer := commands.foldl Buffer.after b

theorem KeepsWithin.run {created : Nat} {policy : GrowthPolicy} (hb : KeepsWithin created policy b)
    (commands : List BufferCommand) : KeepsWithin created policy (b.afterAll commands) := by
  unfold afterAll
  induction commands generalizing b with
  | nil => exact hb
  | cons command rest ih => exact ih (hb.steps (steps_after b command))

/-- Whatever the policy is and whatever was done with a buffer, done or not done for want of capacity,
the buffer is within bounds. A further command never shrinks it and widens it only to what the policy
sets for the room that it asks for; and room is refused just if it is not permitted. -/
theorem capacity_follows_the_policy {created : Nat} {policy : GrowthPolicy} {fresh : Buffer}
    (h : (create created policy : Except (Halt BufferError) Buffer) = .ok fresh)
    (commands : List BufferCommand) :
    let b := fresh.afterAll commands
    KeepsWithin created policy b ∧
      (∀ command, Steps command b (b.after command) ∧ b.capacity ≤ (b.after command).capacity) ∧
      ∀ n, b.Reserves n := by
  intro b
  refine ⟨(KeepsWithin.create h).run commands, ?_, b.reserves⟩
  intro command
  have hsteps := steps_after b command
  exact ⟨hsteps, hsteps.capacity_le⟩

/-- By a factor that is not a number a buffer grows to the limit at once, and there it stays. -/
theorem grown_to_five_at_once :
    let policy : GrowthPolicy := ⟨⟨0x7ff8000000000000⟩, some 5⟩
    let fresh : Buffer := ⟨[], 1, policy⟩
    let commands : List BufferCommand :=
      [.append [1], .fill (.ofSteps [.data [2, 3]] none) (some 2), .reserve 9]
    let b := fresh.afterAll commands
    (create 1 policy : Except (Halt BufferError) Buffer) = .ok fresh ∧
      (b.capacity = 5 ∧ b.content = [1, 2, 3]) ∧ KeepsWithin 1 policy b ∧
      (Steps (.append [4, 5]) b (b.after (.append [4, 5])) ∧
        b.capacity ≤ (b.after (.append [4, 5])).capacity) ∧
      b.Reserves 9 := by
  intro policy fresh commands b
  have hcreated : (create 1 policy : Except (Halt BufferError) Buffer) = .ok fresh := rfl
  obtain ⟨hwithin, hsteps, hreserves⟩ := capacity_follows_the_policy hcreated commands
  exact ⟨hcreated, by decide +kernel, hwithin, hsteps (.append [4, 5]), hreserves 9⟩

end Buffer

end BlobExchange
