import BlobExchange.Buffer.Supplier
import BlobExchange.Proofs.Capacity
import BlobExchange.Proofs.Rounding
import BlobExchange.Settings.Basic
/-! # What fits is granted

What fits is never refused. It overflows if neither the limit nor the enlarged capacity can be
allocated. -/

namespace BlobExchange

/-- What the check of settings accepts: a finite factor of at least one, and no bound of zero. -/
theorem Settings.fault?_eq_none_iff {s : Settings} :
    s.fault? = none ↔ s.growth.factor.isFinite = true ∧ 1 ≤ s.growth.factor.value ∧
      s.growth.maxCapacity ≠ some 0 := by
  rw [← and_assoc, ← Binary64.isFiniteAtLeastOne_iff]
  unfold fault?
  cases s.growth.factor.isFiniteAtLeastOne with
  | false => simp
  | true => simp

namespace GrowthPolicy

variable {p : GrowthPolicy} {current required : Nat}

/-- What the policy sets for a capacity can be allocated if what is required can. -/
def Affords (p : GrowthPolicy) (current : Nat) : Prop :=
  p.limit ≤ Size.allocatable ∨ p.enlarge current ≤ Size.allocatable

theorem target_allocatable_iff (hlimit : required ≤ p.limit) (hsize : required ≤ Size.allocatable) :
    (∃ capacity, p.target current required = .ok capacity ∧ capacity ≤ Size.allocatable) ↔
      p.Affords current := by
  unfold Affords
  rw [target_of_permitted hlimit]
  constructor
  · rintro ⟨capacity, htarget, hallocatable⟩
    cases htarget
    omega
  · intro haffords
    exact ⟨_, rfl, by omega⟩

theorem create_of_newBuffer {size : Nat} {fresh : Buffer} (h : p.newBuffer size = .ok fresh) :
    (Buffer.create size p : Except (Halt BufferError) Buffer) = .ok fresh := by
  unfold newBuffer at h
  split at h
  · cases h
  · exact h

/-- A valid factor affords every capacity whose exact product with it is at most `2 ^ 61`. -/
theorem affords_of_product (hvalid : p.factor.isFiniteAtLeastOne = true)
    (h : (current : ℚ) * p.factor.value ≤ 2 ^ 61) : p.Affords current := by
  refine Or.inr ?_
  calc p.enlarge current
      ≤ 2 ^ 62 := Binary64.ceilSize_mul_le (by decide) hvalid h
    _ ≤ Size.allocatable := by decide

end GrowthPolicy

namespace Buffer

variable {b : Buffer} {n : Nat} {bytes : Bytes}

/-! ## What fits -/

/-- There is room already, or the buffer can be widened for it. -/
def Accommodates (b : Buffer) (n : Nat) : Prop :=
  b.length + n ≤ b.capacity ∨ b.policy.Affords b.capacity

theorem makeRoom_ok_iff_accommodates (hfits : b.fits n = true)
    (hsize : b.length + n ≤ Size.allocatable) :
    (∃ grown, b.makeRoom n = .ok grown) ↔ b.Accommodates n := by
  have hlimit := fits_iff.1 hfits
  unfold Accommodates
  rw [← GrowthPolicy.target_allocatable_iff hlimit hsize]
  constructor
  · rintro ⟨grown, h⟩
    rcases makeRoom_ok_iff.1 h with ⟨hroom, -, -⟩ | ⟨-, capacity, hcapacity, hallocatable, -⟩
    · exact Or.inl hroom
    · exact Or.inr ⟨capacity, hcapacity, hallocatable⟩
  · intro h
    rcases Nat.lt_or_ge b.capacity (b.length + n) with hshort | hroom
    · obtain ⟨capacity, hcapacity, hallocatable⟩ := h.resolve_left (Nat.not_le.2 hshort)
      exact ⟨_, makeRoom_ok_iff.2 (Or.inr ⟨hshort, capacity, hcapacity, hallocatable, rfl⟩)⟩
    · exact ⟨b, makeRoom_ok_iff.2 (Or.inl ⟨hroom, hlimit, rfl⟩)⟩

theorem makeRoom_of_fits (hfits : b.fits n = true) :
    (∃ grown, b.makeRoom n = .ok grown) ∨ b.makeRoom n = .error .overflow := by
  cases hroom : b.makeRoom n with
  | ok grown => exact Or.inl ⟨grown, rfl⟩
  | error halt => exact Or.inr (congrArg _ (makeRoom_error hfits hroom))

theorem append_of_grown {grown : Buffer} (h : b.makeRoom bytes.length = .ok grown) :
    ∃ after, b.append bytes = .ok after ∧ after.content = b.content ++ bytes := by
  by_cases hnil : bytes = []
  · subst hnil
    exact ⟨b, rfl, (List.append_nil _).symm⟩
  · obtain ⟨capacity, rfl, -⟩ := makeRoom_ok h
    rw [append_of_ne_nil hnil, h]
    exact ⟨_, rfl, rfl⟩

/-- What becomes of bytes that fit. The target that the policy sets can be allocated just if it
affords the capacity. With room or such a target, room is made and the bytes are appended as they
are; otherwise both overflow. Neither is ever refused. -/
structure Grants (b : Buffer) (n : Nat) : Prop where
  target : ∃ capacity, b.policy.target b.capacity (b.length + n) = .ok capacity ∧
    b.length + n ≤ capacity ∧ capacity ≤ b.policy.limit ∧
      (capacity ≤ Size.allocatable ↔ b.policy.Affords b.capacity)
  granted : (∃ grown, b.makeRoom n = .ok grown) ↔ b.Accommodates n
  overflows : b.makeRoom n = .error .overflow ↔ ¬ b.Accommodates n
  appended : b.Accommodates n → ∀ bytes : Bytes, bytes.length = n →
    ∃ after, b.append bytes = .ok after ∧ after.content = b.content ++ bytes
  dropped : ¬ b.Accommodates n → ∀ bytes : Bytes, bytes.length = n →
    b.append bytes = .error .overflow

theorem grants (hheld : b.length ≤ b.capacity) (hfits : b.fits n = true)
    (hsize : b.length + n ≤ Size.allocatable) : b.Grants n := by
  have hlimit := fits_iff.1 hfits
  have hgranted := makeRoom_ok_iff_accommodates hfits hsize
  have hoverflows : b.makeRoom n = .error .overflow ↔ ¬ b.Accommodates n := by
    rw [← hgranted]
    constructor
    · rintro hoverflow ⟨grown, hgrown⟩
      rw [hoverflow] at hgrown
      cases hgrown
    · exact (makeRoom_of_fits hfits).resolve_left
  refine ⟨?_, hgranted, hoverflows, ?_, ?_⟩
  · have htarget := @GrowthPolicy.target_of_permitted b.policy b.capacity _ hlimit
    obtain ⟨hrequired, hbound⟩ := GrowthPolicy.target_bounds htarget
    refine ⟨_, htarget, hrequired, hbound, ?_⟩
    rw [← GrowthPolicy.target_allocatable_iff hlimit hsize, htarget]
    simp
  · rintro hroom bytes rfl
    obtain ⟨grown, hgrown⟩ := hgranted.2 hroom
    exact append_of_grown hgrown
  · rintro hroom bytes rfl
    -- there is always room for no bytes
    have hsome : bytes ≠ [] := by
      rintro rfl
      exact hroom (Or.inl hheld)
    rw [append_of_ne_nil hsome, hoverflows.2 hroom]
    rfl

/-! ## Valid settings -/

/-- Valid settings supply a buffer, and whatever was done with it, bytes that fit and are not too many
to allocate are granted and appended just if the buffer accommodates them, and overflow otherwise. It
accommodates them while its capacity times the factor is at most `2 ^ 61`. -/
theorem what_fits_is_granted_or_overflows {settings : Settings} {size : Nat} {fresh : Buffer}
    (hvalid : settings.fault? = none) (hfresh : settings.growth.newBuffer size = .ok fresh)
    (commands : List BufferCommand) {n : Nat} (hfits : (fresh.afterAll commands).fits n = true)
    (hsize : (fresh.afterAll commands).length + n ≤ Size.allocatable) :
    let b := fresh.afterAll commands
    b.policy = settings.growth ∧ b.Grants n ∧
      ((b.capacity : ℚ) * settings.growth.factor.value ≤ 2 ^ 61 → b.Accommodates n) := by
  intro b
  obtain ⟨hfinite, hone, -⟩ := Settings.fault?_eq_none_iff.1 hvalid
  have hwithin := (KeepsWithin.create (GrowthPolicy.create_of_newBuffer hfresh)).run commands
  refine ⟨hwithin.same, grants hwithin.held hfits hsize, ?_⟩
  intro hproduct
  apply Or.inr
  rw [hwithin.same]
  exact GrowthPolicy.affords_of_product (Binary64.isFiniteAtLeastOne_iff.2 ⟨hfinite, hone⟩) hproduct

/-- A buffer that doubles has room for a second byte. -/
theorem second_byte_is_granted :
    let fresh : Buffer := ⟨[], 1, .standard⟩
    let b := fresh.afterAll [.append [6]]
    Settings.standard.fault? = none ∧ Settings.standard.growth.newBuffer 1 = .ok fresh ∧
      b.fits 1 = true ∧ b.length + 1 ≤ Size.allocatable ∧
      b.policy = Settings.standard.growth ∧ b.Grants 1 ∧ b.Accommodates 1 := by
  intro fresh b
  have hvalid : Settings.standard.fault? = none := by decide +kernel
  have hfresh : Settings.standard.growth.newBuffer 1 = .ok fresh := by decide +kernel
  have hfits : b.fits 1 = true := by decide +kernel
  have hsize : b.length + 1 ≤ Size.allocatable := by decide +kernel
  obtain ⟨hpolicy, hgrants, hproduct⟩ :=
    what_fits_is_granted_or_overflows hvalid hfresh [.append [6]] hfits hsize
  refine ⟨hvalid, hfresh, hfits, hsize, hpolicy, hgrants, hproduct ?_⟩
  have hcapacity : b.capacity = 1 := by decide +kernel
  have htwo : Settings.standard.growth.factor.value = 2 := by
    have hreading : Binary64.two.reading = .finite false 0x10000000000000 (-51) := by decide +kernel
    show Binary64.two.value = 2
    unfold Binary64.value
    rw [hreading]
    norm_num
  rw [hcapacity, htwo]
  norm_num

/-- With the largest finite factor, which is valid, a second byte fits and overflows: what the policy
sets for it is the largest size. -/
theorem second_byte_overflows :
    let settings := Settings.standard.withFactor ⟨0x7fefffffffffffff⟩
    let fresh : Buffer := ⟨[], 1, settings.growth⟩
    let b := fresh.afterAll [.append [6]]
    settings.fault? = none ∧ settings.growth.newBuffer 1 = .ok fresh ∧
      b.fits 1 = true ∧ b.length + 1 ≤ Size.allocatable ∧
      b.policy.target b.capacity (b.length + 1) = .ok Size.largest ∧
      ¬ Size.largest ≤ Size.allocatable ∧
      b.makeRoom 1 = .error .overflow ∧ b.append [7] = .error .overflow := by
  decide +kernel

end Buffer

end BlobExchange
