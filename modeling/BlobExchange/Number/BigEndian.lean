import BlobExchange.Size
/-! # Big-endian words

Reading undoes writing and writing undoes reading (`toNat_ofNat`, `ofNat_toNat`). -/

namespace BlobExchange.BigEndian

/-- How many numbers so many bytes can tell apart. -/
def span : Nat → Nat
  | 0 => 1
  | width + 1 => 256 * span width

/-- The last `width` base-256 digits of a number, the highest first. -/
def ofNat : Nat → Nat → Bytes
  | 0, _ => []
  | width + 1, n => ofNat width (n / 256) ++ [UInt8.ofNat (n % 256)]

/-- The number of base-256 digits. -/
def toNat (bytes : Bytes) : Nat := bytes.foldl (fun n b => 256 * n + b.toNat) 0

def ofInt64 (value : Int64) : Bytes := ofNat 8 value.toUInt64.toNat

def toInt64 (bytes : Bytes) : Int64 := (UInt64.ofNat (toNat bytes)).toInt64

@[simp] theorem length_ofNat (width n : Nat) : (ofNat width n).length = width := by
  induction width generalizing n with
  | zero => rfl
  | succ w ih => simp [ofNat, ih]

theorem toNat_append_singleton (bytes : Bytes) (b : UInt8) :
    toNat (bytes ++ [b]) = 256 * toNat bytes + b.toNat := by
  simp [toNat]

theorem toNat_ofNat {width n : Nat} (h : n < span width) : toNat (ofNat width n) = n := by
  induction width generalizing n with
  | zero => simp [ofNat, toNat, span] at *; omega
  | succ w ih =>
    have hq : n / 256 < span w := Nat.div_lt_of_lt_mul h
    rw [ofNat, toNat_append_singleton, ih hq]
    have hm : (UInt8.ofNat (n % 256)).toNat = n % 256 := by
      simp
    omega

theorem ofNat_toNat {width : Nat} {bytes : Bytes} (h : bytes.length = width) :
    ofNat width (toNat bytes) = bytes := by
  induction width generalizing bytes with
  | zero => rw [List.length_eq_zero_iff.1 h]; rfl
  | succ w ih =>
    obtain rfl | ⟨init, b, rfl⟩ := List.eq_nil_or_concat bytes
    · cases h
    · have hb := b.toNat_lt
      have hw : init.length = w := by simpa using h
      rw [List.concat_eq_append, ofNat, toNat_append_singleton,
        show (256 * toNat init + b.toNat) / 256 = toNat init by omega, ih hw,
        show (256 * toNat init + b.toNat) % 256 = b.toNat by omega]
      simp

theorem toNat_lt (bytes : Bytes) : toNat bytes < span bytes.length := by
  suffices h : ∀ n : Nat, bytes.foldl (fun n b => 256 * n + b.toNat) n <
      (n + 1) * span bytes.length by
    simpa [toNat] using h 0
  induction bytes with
  | nil => simp [span]
  | cons b rest ih =>
    intro n
    have hb := b.toNat_lt
    calc rest.foldl (fun n b => 256 * n + b.toNat) (256 * n + b.toNat)
        < (256 * n + b.toNat + 1) * span rest.length := ih _
      _ ≤ ((n + 1) * 256) * span rest.length := Nat.mul_le_mul_right _ (by omega)
      _ = (n + 1) * span (rest.length + 1) := Nat.mul_assoc _ _ _

@[simp] theorem length_ofInt64 (value : Int64) : (ofInt64 value).length = 8 :=
  length_ofNat 8 _

end BlobExchange.BigEndian
