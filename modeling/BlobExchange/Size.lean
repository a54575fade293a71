/-! # Sizes

Counts of bytes fit a 64-bit word, and are kept here as natural numbers. -/

namespace BlobExchange

abbrev Bytes := List UInt8

namespace Size

/-- The largest count of bytes: the largest 64-bit word. -/
def largest : Nat := 0xffff_ffff_ffff_ffff

/-- The largest allocation that can be asked for: the largest signed 64-bit number. -/
def allocatable : Nat := 0x7fff_ffff_ffff_ffff

def add? (a b : Nat) : Option Nat :=
  if a + b ≤ largest then some (a + b) else none

def addHeld (a b : Nat) : Nat :=
  min (a + b) largest

theorem add?_eq_some_iff {a b c : Nat} : add? a b = some c ↔ a + b ≤ largest ∧ a + b = c := by
  unfold add?
  by_cases h : a + b ≤ largest
  · rw [if_pos h, Option.some.injEq]
    exact ⟨fun heq => ⟨h, heq⟩, fun heq => heq.2⟩
  · rw [if_neg h]
    exact ⟨fun hsome => (nomatch hsome), fun heq => absurd heq.1 h⟩

theorem add?_eq_none_iff {a b : Nat} : add? a b = none ↔ largest < a + b := by
  unfold add?
  by_cases h : a + b ≤ largest
  · rw [if_pos h]
    exact ⟨fun hnone => (nomatch hnone), fun hlt => absurd h (Nat.not_le.2 hlt)⟩
  · rw [if_neg h]
    exact ⟨fun _ => Nat.not_le.1 h, fun _ => rfl⟩

end Size

end BlobExchange
