import BlobExchange.Failure.Buffer
import BlobExchange.Number.Binary64
/-! # Growth policies

A policy is not checked: whatever its factor is, the capacity to grow to lies between what is
required and the limit (`target_bounds`). -/

namespace BlobExchange

structure GrowthPolicy where
  factor : Binary64
  maxCapacity : Option Nat
  deriving DecidableEq, Repr

namespace GrowthPolicy

def standard : GrowthPolicy := ⟨Binary64.two, none⟩

/-- The largest capacity that the policy permits, the largest size if it sets no bound. -/
def limit (p : GrowthPolicy) : Nat := min (p.maxCapacity.getD Size.largest) Size.largest

def permits (p : GrowthPolicy) (total : Nat) : Bool := decide (total ≤ p.limit)

/-- A capacity times the factor, rounded up to a size. The capacity and the product are rounded to
doubles first. -/
def enlarge (p : GrowthPolicy) (capacity : Nat) : Nat :=
  ((Binary64.ofNat capacity).mul p.factor).ceilSize

/-- The capacity to grow to from `current` when `required` bytes are needed. -/
def target (p : GrowthPolicy) (current required : Nat) : Except BufferError Nat :=
  if p.limit < required then .error (.capacityExceeded required p.limit)
  else .ok (min (max (p.enlarge current) required) p.limit)

/-- Equality of policies, their factors compared as numbers. -/
def same (p q : GrowthPolicy) : Bool :=
  p.factor.sameValue q.factor && p.maxCapacity == q.maxCapacity

theorem limit_le_largest (p : GrowthPolicy) : p.limit ≤ Size.largest :=
  Nat.min_le_right _ _

theorem target_of_permitted {p : GrowthPolicy} {current required : Nat}
    (h : required ≤ p.limit) :
    p.target current required = .ok (min (max (p.enlarge current) required) p.limit) :=
  if_neg (Nat.not_lt.2 h)

theorem target_bounds {p : GrowthPolicy} {current required capacity : Nat}
    (h : p.target current required = .ok capacity) :
    required ≤ capacity ∧ capacity ≤ p.limit := by
  unfold target at h
  split at h
  · cases h
  · cases h
    omega

end GrowthPolicy

end BlobExchange
