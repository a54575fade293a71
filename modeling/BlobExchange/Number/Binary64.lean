import BlobExchange.Size
/-! # Double-precision numbers

Every operation is defined on the exact value in natural-number arithmetic and rounded once, to the
nearest double and to the even one of two equally near. -/

namespace BlobExchange

/-- A double-precision number, by its bits. -/
structure Binary64 where
  bits : UInt64
  deriving DecidableEq, Repr

namespace Binary64

/-- What the bits of a double stand for. A finite double is `significand * 2 ^ exponent`, negated
if `negative`; zero has both signs. -/
inductive Reading where
  | finite (negative : Bool) (significand : Nat) (exponent : Int)
  | infinite (negative : Bool)
  | notANumber
  deriving DecidableEq, Repr

/-- Weight of the lowest exponent bit. -/
def fractionSpan : Nat := 0x10_0000_0000_0000

/-- Weight of the sign bit. -/
def signSpan : Nat := 0x8000_0000_0000_0000

/-- The exponent field of infinities and of what is not a number. -/
def topExponent : Nat := 2047

/-- The exponent of the finest doubles. -/
def finest : Int := -1074

def isNegative (x : Binary64) : Bool := decide (signSpan ≤ x.bits.toNat)

def exponentField (x : Binary64) : Nat := x.bits.toNat / fractionSpan % 2048

def fraction (x : Binary64) : Nat := x.bits.toNat % fractionSpan

def reading (x : Binary64) : Reading :=
  if x.exponentField = topExponent then
    if x.fraction = 0 then .infinite x.isNegative else .notANumber
  else if x.exponentField = 0 then
    .finite x.isNegative x.fraction finest
  else
    .finite x.isNegative (fractionSpan + x.fraction) (x.exponentField + finest - 1)

def isFinite (x : Binary64) : Bool :=
  decide (x.exponentField ≠ topExponent)

def isNaN (x : Binary64) : Bool :=
  decide (x.exponentField = topExponent ∧ x.fraction ≠ 0)

/-! ## Rounding -/

/-- A fraction times a power of two, as a fraction. -/
def scaleByTwo (num den : Nat) (k : Int) : Nat × Nat :=
  if 0 ≤ k then (num <<< k.toNat, den) else (num, den <<< (-k).toNat)

/-- The quotient rounded to the nearest natural number, of two equally near to the even one. -/
def roundHalfEven (num den : Nat) : Nat :=
  let whole := num / den
  let rest := num % den
  if 2 * rest < den then whole
  else if den < 2 * rest then whole + 1
  else whole + whole % 2

/-- The largest power of two that does not exceed the fraction, by its exponent. -/
def floorLog2 (num den : Nat) : Int :=
  let guess : Int := (num.log2 : Int) - (den.log2 : Int)
  let scaled := scaleByTwo num den (-guess)
  if scaled.1 < scaled.2 then guess - 1 else guess

def infiniteBits : Nat := topExponent * fractionSpan

/-- Bits, sign apart, of the double nearest to a fraction. In the unit of the last place that its
magnitude allows, a double is a whole number of units below `2 ^ 53`; rounding up to that number
carries into the exponent field, and past the largest finite double into infinity. -/
def nearestBits (num den : Nat) : Nat :=
  if num = 0 then 0
  else
    let place : Int := max (floorLog2 num den - 52) finest
    let scaled := scaleByTwo num den (-place)
    min ((place - finest).toNat * fractionSpan + roundHalfEven scaled.1 scaled.2) infiniteBits

def signed (negative : Bool) (magnitude : Nat) : Binary64 :=
  ⟨UInt64.ofNat (if negative then signSpan + magnitude else magnitude)⟩

def ofFraction (negative : Bool) (num den : Nat) : Binary64 :=
  signed negative (nearestBits num den)

/-- The double nearest to `± m * 2 ^ k`. -/
def ofScaled (negative : Bool) (m : Nat) (k : Int) : Binary64 :=
  let scaled := scaleByTwo m 1 k
  ofFraction negative scaled.1 scaled.2

def ofNat (n : Nat) : Binary64 := ofFraction false n 1

def ofInt (i : Int) : Binary64 := ofFraction (decide (i < 0)) i.natAbs 1

def infinity (negative : Bool) : Binary64 := signed negative infiniteBits

/-- The canonical bits of what is not a number. -/
def notANumber (negative : Bool) : Binary64 := signed negative (infiniteBits + fractionSpan / 2)

/-- The double nearest to `± digits * 10 ^ exponent`. A leading digit far outside the range of
doubles decides the result without the power being computed. -/
def ofDecimal (negative : Bool) (digits : Nat) (exponent : Int) : Binary64 :=
  if digits = 0 then signed negative 0
  else
    let leading : Int := exponent + (Nat.toDigits 10 digits).length
    if 400 < leading then infinity negative
    else if leading < -400 then signed negative 0
    else if 0 ≤ exponent then ofFraction negative (digits * Nat.pow 10 exponent.toNat) 1
    else ofFraction negative digits (Nat.pow 10 (-exponent).toNat)

/-! ## Operations -/

/-- The product, rounded once. Zero times infinity is not a number. -/
def mul (x y : Binary64) : Binary64 :=
  match x.reading, y.reading with
  | .notANumber, _ => notANumber false
  | _, .notANumber => notANumber false
  | .infinite s, .infinite t => infinity (s != t)
  | .infinite s, .finite t m _ => if m = 0 then notANumber false else infinity (s != t)
  | .finite s m _, .infinite t => if m = 0 then notANumber false else infinity (s != t)
  | .finite s m j, .finite t n k => ofScaled (s != t) (m * n) (j + k)

def ceilDiv (num den : Nat) : Nat := (num + (den - 1)) / den

/-- The double rounded up to a size: a negative value gives 0, and whatever is not a finite value
within the sizes gives the largest size. -/
def ceilSize (x : Binary64) : Nat :=
  match x.reading with
  | .finite true _ _ => 0
  | .finite false m k =>
    let scaled := scaleByTwo m 1 k
    min (ceilDiv scaled.1 scaled.2) Size.largest
  | _ => Size.largest

def isFiniteAtLeastOne (x : Binary64) : Bool :=
  match x.reading with
  | .finite false m k => let scaled := scaleByTwo m 1 k; decide (scaled.2 ≤ scaled.1)
  | _ => false

/-- Equality of values: what is not a number equals nothing, and both zeros are equal. -/
def sameValue (x y : Binary64) : Bool :=
  match x.reading, y.reading with
  | .finite s m j, .finite t n k => decide (m = n ∧ j = k ∧ (s = t ∨ m = 0))
  | .infinite s, .infinite t => s == t
  | _, _ => false

def two : Binary64 := ⟨0x4000000000000000⟩

end Binary64

end BlobExchange
