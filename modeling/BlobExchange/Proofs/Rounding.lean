import BlobExchange.Number.Binary64
import Mathlib.Algebra.Order.Field.Power
import Mathlib.Algebra.Order.Ring.Rat
import Mathlib.Tactic.FieldSimp
import Mathlib.Tactic.GCongr
import Mathlib.Tactic.Linarith
import Mathlib.Tactic.NormNum
import Mathlib.Tactic.Positivity
import Mathlib.Tactic.Ring
/-! # How far rounding takes a double

A power of two is a double itself, so what is at most a power of two is rounded to at most that
(`nearestBits_le`). -/

namespace BlobExchange.Binary64

variable {num den : Nat} {v : ℚ}

/-! ## Fractions -/

/-- A value as a fraction of natural numbers. -/
structure Fraction (v : ℚ) (num den : Nat) : Prop where
  pos : 0 < den
  eq : (num : ℚ) = v * den

namespace Fraction

theorem le_mul_iff (h : Fraction v num den) (c : Nat) : num ≤ c * den ↔ v ≤ c := by
  have hden : (0 : ℚ) < den := Nat.cast_pos.2 h.pos
  rw [← Nat.cast_le (α := ℚ), Nat.cast_mul, h.eq]
  exact mul_le_mul_iff_left₀ hden

theorem mul_le_iff (h : Fraction v num den) (c : Nat) : c * den ≤ num ↔ (c : ℚ) ≤ v := by
  have hden : (0 : ℚ) < den := Nat.cast_pos.2 h.pos
  rw [← Nat.cast_le (α := ℚ), Nat.cast_mul, h.eq]
  exact mul_le_mul_iff_left₀ hden

theorem scale (h : Fraction v num den) (k : Int) :
    Fraction (v * 2 ^ k) (scaleByTwo num den k).1 (scaleByTwo num den k).2 := by
  unfold scaleByTwo
  split
  · rename_i hk
    obtain ⟨n, rfl⟩ := Int.eq_ofNat_of_zero_le hk
    refine ⟨h.pos, ?_⟩
    simp only [Int.toNat_natCast, Nat.shiftLeft_eq]
    push_cast
    rw [h.eq, zpow_natCast]
    ring
  · rename_i hk
    obtain ⟨n, hn⟩ := Int.eq_ofNat_of_zero_le (show 0 ≤ -k by omega)
    obtain rfl : k = -(n : Int) := by omega
    have htwo : (2 : ℚ) ^ n ≠ 0 := by positivity
    refine ⟨?_, ?_⟩
    · simp only [neg_neg, Int.toNat_natCast, Nat.shiftLeft_eq]
      exact Nat.mul_pos h.pos (Nat.two_pow_pos n)
    · simp only [neg_neg, Int.toNat_natCast, Nat.shiftLeft_eq]
      push_cast
      rw [h.eq, zpow_neg, zpow_natCast]
      field_simp

end Fraction

/-! ## Rounding -/

theorem roundHalfEven_le (hden : 0 < den) {c : Nat} (h : num ≤ c * den) :
    roundHalfEven num den ≤ c := by
  have hdiv := Nat.div_add_mod num den
  have hwhole : num / den ≤ c := Nat.div_le_of_le_mul (by rw [Nat.mul_comm]; exact h)
  unfold roundHalfEven
  simp only
  rcases Nat.lt_or_eq_of_le hwhole with hless | heq
  · split
    · omega
    · split <;> omega
  · -- the quotient is the number itself, and nothing is left over
    have hrest : num % den = 0 := by
      rw [heq, Nat.mul_comm] at hdiv
      omega
    rw [hrest, if_pos (by omega)]
    exact hwhole

theorem log2_spec {n : Nat} (hn : 0 < n) :
    (2 : ℚ) ^ (n.log2 : Int) ≤ n ∧ (n : ℚ) < 2 ^ ((n.log2 : Int) + 1) := by
  constructor
  · rw [zpow_natCast]
    exact_mod_cast Nat.log2_self_le (Nat.pos_iff_ne_zero.1 hn)
  · have hnext : ((n.log2 : Int) + 1) = ((n.log2 + 1 : Nat) : Int) := by push_cast; rfl
    rw [hnext, zpow_natCast]
    exact_mod_cast Nat.lt_log2_self

theorem floorLog2_spec (h : Fraction v num den) (hnum : 0 < num) :
    (2 : ℚ) ^ floorLog2 num den ≤ v ∧ v < 2 ^ (floorLog2 num den + 1) := by
  obtain ⟨hnumLow, hnumHigh⟩ := log2_spec hnum
  obtain ⟨hdenLow, hdenHigh⟩ := log2_spec h.pos
  have hden : (0 : ℚ) < den := Nat.cast_pos.2 h.pos
  unfold floorLog2
  generalize (num.log2 : Int) = a at *
  generalize (den.log2 : Int) = b at *
  have hlow : (2 : ℚ) ^ (a - b - 1) < v := by
    apply lt_of_mul_lt_mul_right _ hden.le
    calc (2 : ℚ) ^ (a - b - 1) * den
        < 2 ^ (a - b - 1) * 2 ^ (b + 1) := by gcongr
      _ = 2 ^ a := by rw [← zpow_add₀ two_ne_zero]; congr 1; omega
      _ ≤ v * den := hnumLow.trans_eq h.eq
  have hhigh : v < (2 : ℚ) ^ (a - b + 1) := by
    apply lt_of_mul_lt_mul_right _ hden.le
    calc v * den = num := h.eq.symm
      _ < 2 ^ (a + 1) := hnumHigh
      _ = 2 ^ (a - b + 1) * 2 ^ b := by rw [← zpow_add₀ two_ne_zero]; congr 1; omega
      _ ≤ 2 ^ (a - b + 1) * den := by gcongr
  -- the guess is one too high just if the value is below its power of two
  have hbelow : (scaleByTwo num den (-(a - b))).1 < (scaleByTwo num den (-(a - b))).2 ↔
      v < 2 ^ (a - b) := by
    have hguess := (h.scale (-(a - b))).mul_le_iff 1
    rw [Nat.one_mul, zpow_neg, ← div_eq_mul_inv, Nat.cast_one, one_le_div₀ (by positivity)] at hguess
    rw [← not_le, ← not_le, hguess]
  simp only
  split
  · rename_i hless
    rw [sub_add_cancel]
    exact ⟨hlow.le, hbelow.1 hless⟩
  · rename_i hless
    exact ⟨not_lt.1 fun hv => hless (hbelow.2 hv), hhigh⟩

/-- In units of a place a value is rounded to no more units than bound it. -/
theorem roundHalfEven_scale_le (h : Fraction v num den) (place : Int) {c : Nat}
    (hc : v ≤ (c : ℚ) * 2 ^ place) :
    roundHalfEven (scaleByTwo num den (-place)).1 (scaleByTwo num den (-place)).2 ≤ c := by
  have hscaled := h.scale (-place)
  apply roundHalfEven_le hscaled.pos
  rw [hscaled.le_mul_iff, zpow_neg, ← div_eq_mul_inv, div_le_iff₀ (by positivity)]
  exact hc

/-- What is at most a power of two is rounded to at most the bits of that power. -/
theorem nearestBits_le (h : Fraction v num den) {j : Nat} (hv : v ≤ 2 ^ j) :
    nearestBits num den ≤ (j + 1023) * fractionSpan := by
  unfold nearestBits
  split
  · exact Nat.zero_le _
  rename_i hnum
  obtain ⟨hlow, hhigh⟩ := floorLog2_spec h (Nat.pos_of_ne_zero hnum)
  apply Nat.le_trans (Nat.min_le_left _ _)
  generalize floorLog2 num den = l at *
  generalize hplace : max (l - 52) finest = place
  have hlj : l ≤ j := by
    apply (zpow_le_zpow_iff_right₀ (one_lt_two (α := ℚ))).1
    rw [zpow_natCast]
    exact hlow.trans hv
  unfold finest at hplace ⊢
  rcases hlj.lt_or_eq with hless | rfl
  · -- below the power a unit of the last place is half of what it is at the power, or the finest
    have hbound : v ≤ ((2 * fractionSpan : Nat) : ℚ) * 2 ^ place := by
      calc v ≤ 2 ^ (l + 1) := hhigh.le
        _ ≤ 2 ^ (53 + place) := by
          apply zpow_le_zpow_right₀ one_le_two
          omega
        _ = ((2 * fractionSpan : Nat) : ℚ) * 2 ^ place := by
          rw [zpow_add₀ two_ne_zero]
          norm_num [fractionSpan]
    have hunits := roundHalfEven_scale_le h place hbound
    unfold fractionSpan at hunits ⊢
    omega
  · have hbound : v ≤ ((fractionSpan : Nat) : ℚ) * 2 ^ place := by
      have hexponent : (j : Int) = 52 + place := by omega
      calc v ≤ 2 ^ (j : Int) := by rw [zpow_natCast]; exact hv
        _ = ((fractionSpan : Nat) : ℚ) * 2 ^ place := by
          rw [hexponent, zpow_add₀ two_ne_zero]
          norm_num [fractionSpan]
    have hunits := roundHalfEven_scale_le h place hbound
    unfold fractionSpan at hunits ⊢
    omega

/-- A finite double, not negative and at most a power of two. -/
def AtMost (x : Binary64) (j : Nat) : Prop :=
  ∃ m k, x.reading = .finite false m k ∧ (m : ℚ) * 2 ^ k ≤ 2 ^ j

theorem units_le {m c j : Nat} {k : Int} (hm : m ≤ 2 ^ c) (hk : c + k ≤ j) :
    (m : ℚ) * 2 ^ k ≤ 2 ^ j := by
  calc (m : ℚ) * 2 ^ k
      ≤ 2 ^ c * 2 ^ k := by
        gcongr
        exact_mod_cast hm
    _ = 2 ^ (c + k) := by rw [zpow_add₀ two_ne_zero, zpow_natCast]
    _ ≤ 2 ^ (j : Int) := zpow_le_zpow_right₀ one_le_two hk
    _ = 2 ^ j := zpow_natCast 2 j

/-- The bits of a finite magnitude are read as its exponent field and its fraction. -/
theorem reading_signed {bits : Nat} (h : bits < infiniteBits) :
    (signed false bits).reading =
      if bits / fractionSpan = 0 then .finite false (bits % fractionSpan) finest
      else .finite false (fractionSpan + bits % fractionSpan)
        ((bits / fractionSpan : Nat) + finest - 1) := by
  unfold infiniteBits topExponent fractionSpan at h
  have hbits : (signed false bits).bits.toNat = bits := by
    show (UInt64.ofNat bits).toNat = bits
    rw [UInt64.toNat_ofNat']
    omega
  have hsign : (signed false bits).isNegative = false := by
    unfold isNegative signSpan
    rw [hbits, decide_eq_false_iff_not]
    omega
  have hfield : (signed false bits).exponentField = bits / fractionSpan := by
    unfold exponentField fractionSpan
    rw [hbits]
    omega
  have hfraction : (signed false bits).fraction = bits % fractionSpan := by
    unfold fraction
    rw [hbits]
  have htop : (signed false bits).exponentField ≠ topExponent := by
    rw [hfield]
    unfold topExponent fractionSpan
    omega
  unfold reading
  rw [if_neg htop, hsign, hfield, hfraction]

theorem atMost_signed {bits j : Nat} (hj : j ≤ 1023) (h : bits ≤ (j + 1023) * fractionSpan) :
    (signed false bits).AtMost j := by
  have hfinite : bits < infiniteBits := by
    unfold infiniteBits topExponent
    unfold fractionSpan at h ⊢
    omega
  unfold AtMost
  rw [reading_signed hfinite]
  unfold fractionSpan finest
  unfold fractionSpan at h
  have hdiv := Nat.div_add_mod bits 0x10000000000000
  have hmod := Nat.mod_lt bits (show 0 < 0x10000000000000 by decide)
  generalize bits / 0x10000000000000 = e at *
  generalize bits % 0x10000000000000 = f at *
  split
  · refine ⟨f, -1074, rfl, units_le (c := 52) ?_ ?_⟩
    · omega
    · omega
  · refine ⟨0x10000000000000 + f, e + -1074 - 1, rfl, ?_⟩
    rcases Nat.lt_or_ge e (j + 1023) with hless | hge
    · apply units_le (c := 53)
      · omega
      · omega
    · -- with the exponent of the power itself the fraction is zero
      apply units_le (c := 52)
      · omega
      · omega

theorem atMost_ofScaled {m j : Nat} {k : Int} (hj : j ≤ 1023) (h : (m : ℚ) * 2 ^ k ≤ 2 ^ j) :
    (ofScaled false m k).AtMost j := by
  have hone : Fraction (m : ℚ) m 1 := ⟨Nat.one_pos, by simp⟩
  exact atMost_signed hj (nearestBits_le (hone.scale k) h)

theorem atMost_ofNat {n j : Nat} (hj : j ≤ 1023) (h : n ≤ 2 ^ j) : (ofNat n).AtMost j := by
  have hone : Fraction (n : ℚ) n 1 := ⟨Nat.one_pos, by simp⟩
  exact atMost_signed hj (nearestBits_le hone (by exact_mod_cast h))

theorem atMost_mul {x y : Binary64} {m n j : Nat} {k l : Int} (hx : x.reading = .finite false m k)
    (hy : y.reading = .finite false n l) (hj : j ≤ 1023)
    (h : (m : ℚ) * 2 ^ k * (n * 2 ^ l) ≤ 2 ^ j) : (x.mul y).AtMost j := by
  have hmul : x.mul y = ofScaled false (m * n) (k + l) := by
    simp only [Binary64.mul, hx, hy]
    rfl
  rw [hmul]
  apply atMost_ofScaled hj
  calc ((m * n : Nat) : ℚ) * 2 ^ (k + l)
      = m * 2 ^ k * (n * 2 ^ l) := by
        rw [zpow_add₀ two_ne_zero]
        push_cast
        ring
    _ ≤ 2 ^ j := h

theorem ceilDiv_le {c : Nat} (hden : 0 < den) (h : num ≤ c * den) : ceilDiv num den ≤ c := by
  unfold ceilDiv
  apply Nat.le_of_lt_succ
  rw [Nat.div_lt_iff_lt_mul hden, Nat.succ_mul]
  omega

theorem AtMost.ceilSize_le {x : Binary64} {j : Nat} (hx : x.AtMost j) : x.ceilSize ≤ 2 ^ j := by
  obtain ⟨m, k, hreading, hm⟩ := hx
  have hone : Fraction (m : ℚ) m 1 := ⟨Nat.one_pos, by simp⟩
  have hscaled := hone.scale k
  simp only [ceilSize, hreading]
  apply Nat.le_trans (Nat.min_le_left _ _)
  apply ceilDiv_le hscaled.pos
  rw [hscaled.le_mul_iff]
  exact_mod_cast hm

/-! ## Values -/

/-- The number that a finite double stands for, and 0 for what is not finite. -/
def value (x : Binary64) : ℚ :=
  match x.reading with
  | .finite negative m k => if negative then -(m * 2 ^ k) else m * 2 ^ k
  | _ => 0

theorem isFinite_iff {x : Binary64} :
    x.isFinite = true ↔ ∃ negative m k, x.reading = .finite negative m k := by
  unfold isFinite reading
  rw [decide_eq_true_iff]
  by_cases htop : x.exponentField = topExponent
  · rw [if_pos htop]
    split <;> simp [htop]
  · rw [if_neg htop]
    split <;> simp [htop]

/-- The check of a factor does what it says. -/
theorem isFiniteAtLeastOne_iff {x : Binary64} :
    x.isFiniteAtLeastOne = true ↔ x.isFinite = true ∧ 1 ≤ x.value := by
  rw [isFinite_iff]
  unfold isFiniteAtLeastOne value
  match hreading : x.reading with
  | .infinite negative => simp
  | .notANumber => simp
  | .finite true m k =>
    have hvalue : (0 : ℚ) ≤ m * 2 ^ k := by positivity
    simp only [if_true]
    exact iff_of_false nofun fun h => by linarith [h.2]
  | .finite false m k =>
    have hone : Fraction (m : ℚ) m 1 := ⟨Nat.one_pos, by simp⟩
    have hscaled := (hone.scale k).mul_le_iff 1
    rw [Nat.one_mul, Nat.cast_one] at hscaled
    simp [hscaled]

/-- A factor that passes the check is read as its value. -/
theorem reading_of_isFiniteAtLeastOne {x : Binary64} (h : x.isFiniteAtLeastOne = true) :
    ∃ m k, x.reading = .finite false m k ∧ x.value = m * 2 ^ k := by
  unfold isFiniteAtLeastOne at h
  unfold value
  split at h
  · rename_i m k hreading
    rw [hreading]
    exact ⟨m, k, rfl, rfl⟩
  · cases h

/-! ## Growth -/

/-- A capacity is rounded to no more than twice what it is. -/
theorem reading_ofNat {n j : Nat} (hj : j + 1 ≤ 1023) (hn : n ≤ 2 ^ j) :
    ∃ m k, (ofNat n).reading = .finite false m k ∧ (m : ℚ) * 2 ^ k ≤ 2 * n := by
  rcases Nat.eq_zero_or_pos n with rfl | hpos
  · exact ⟨0, finest, rfl, by simp⟩
  · have hlog : n.log2 < j + 1 := by
      apply (Nat.log2_lt (Nat.pos_iff_ne_zero.1 hpos)).2
      exact Nat.lt_of_le_of_lt hn (Nat.pow_lt_pow_right (by decide) (Nat.lt_succ_self j))
    obtain ⟨m, k, hreading, hm⟩ :=
      atMost_ofNat (n := n) (j := n.log2 + 1) (by omega) Nat.lt_log2_self.le
    refine ⟨m, k, hreading, hm.trans ?_⟩
    calc (2 : ℚ) ^ (n.log2 + 1)
        = 2 * 2 ^ n.log2 := pow_succ' 2 _
      _ ≤ 2 * n := by
        gcongr
        exact_mod_cast Nat.log2_self_le (Nat.pos_iff_ne_zero.1 hpos)

/-- A capacity grows by a factor that passes the check to at most twice the power of two that bounds
the exact product. -/
theorem ceilSize_mul_le {n j : Nat} {x : Binary64} (hj : j + 1 ≤ 1023)
    (hx : x.isFiniteAtLeastOne = true) (h : (n : ℚ) * x.value ≤ 2 ^ j) :
    ((ofNat n).mul x).ceilSize ≤ 2 ^ (j + 1) := by
  have hone := (isFiniteAtLeastOne_iff.1 hx).2
  obtain ⟨m, k, hreading, hvalue⟩ := reading_of_isFiniteAtLeastOne hx
  have hn : n ≤ 2 ^ j := by
    have hle : (n : ℚ) ≤ 2 ^ j := (le_mul_of_one_le_right n.cast_nonneg hone).trans h
    exact_mod_cast hle
  obtain ⟨m', k', hreading', hdouble⟩ := reading_ofNat hj hn
  apply AtMost.ceilSize_le
  apply atMost_mul hreading' hreading hj
  rw [← hvalue]
  calc (m' : ℚ) * 2 ^ k' * x.value
      ≤ 2 * n * x.value := by gcongr
    _ = 2 * (n * x.value) := by ring
    _ ≤ 2 * 2 ^ j := by gcongr
    _ = 2 ^ (j + 1) := (pow_succ' 2 j).symm

end BlobExchange.Binary64
