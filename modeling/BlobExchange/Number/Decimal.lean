import BlobExchange.Number.Binary64
/-! # Decimal text of doubles

The fewest digits that read back as the double and, among those, the nearest to its value. -/

namespace BlobExchange

/-- The decimal number `digits * 10 ^ exponent`. -/
structure Decimal where
  digits : Nat
  exponent : Int
  deriving DecidableEq, Repr

namespace Decimal

/-- The reals that round to a double, as whole numbers of a common unit: the ends `low` and
`high`, and the double's own `value` between them. The ends belong to it if `closed`. -/
structure Interval where
  low : Nat
  value : Nat
  high : Nat
  closed : Bool

/-- The interval of `m * 2 ^ k`, in units of `2 ^ (k - 2)`. Below a power of two the doubles lie
twice as dense, except at the finest. -/
def Interval.ofSignificand (m : Nat) (k : Int) : Interval where
  low := if m = Binary64.fractionSpan ∧ Binary64.finest < k then 4 * m - 1 else 4 * m - 2
  value := 4 * m
  high := 4 * m + 2
  closed := m % 2 == 0

def Interval.holds (i : Interval) (point : Nat) : Bool :=
  if i.closed then decide (i.low ≤ point ∧ point ≤ i.high)
  else decide (i.low < point ∧ point < i.high)

def Interval.scale (i : Interval) (factor : Nat) : Interval :=
  { i with low := i.low * factor, value := i.value * factor, high := i.high * factor }

def digitCount (n : Nat) : Nat := (Nat.toDigits 10 n).length

/-- The exponent of the leading decimal digit of a positive fraction. -/
def leadingExponent (num den : Nat) : Int :=
  if den ≤ num then (digitCount (num / den) : Int) - 1
  else -(digitCount ((den - 1) / num) : Int)

/-- The point of the grid of `step` that lies in the interval next to its value: of the two
neighbours the nearer one, and the upper one of two equally near. -/
def neighbour? (i : Interval) (step : Nat) : Option Nat :=
  let below := i.value / step
  let above := below + 1
  match i.holds (below * step), i.holds (above * step) with
  | false, false => none
  | true, false => some below
  | false, true => some above
  | true, true =>
    if i.value - below * step < above * step - i.value then some below else some above

/-- Drops trailing zeros, at most as many as there are places. -/
def dropZeros : Nat → Decimal → Decimal
  | 0, d => d
  | places + 1, d =>
    if d.digits % 10 = 0 then dropZeros places ⟨d.digits / 10, d.exponent + 1⟩ else d

/-- Looks for a neighbour on the grids of one digit more each time, `more` times. The interval is
in units of `1 / den`; `place` is the exponent of the grid's last digit. -/
def search : Nat → Interval → Nat → Int → Decimal
  | 0, i, den, place =>
    if 0 ≤ place then ⟨i.value / (den * Nat.pow 10 place.toNat), place⟩
    else ⟨i.value * Nat.pow 10 (-place).toNat / den, place⟩
  | more + 1, i, den, place =>
    let found :=
      if 0 ≤ place then neighbour? i (den * Nat.pow 10 place.toNat)
      else neighbour? (i.scale (Nat.pow 10 (-place).toNat)) den
    match found with
    | some digits => ⟨digits, place⟩
    | none => search more i den (place - 1)

/-- The decimal of fewest digits that rounds to `m * 2 ^ k`. Seventeen digits always do. -/
def shortest (m : Nat) (k : Int) : Decimal :=
  if m = 0 then ⟨0, 0⟩
  else
    let unit := Binary64.scaleByTwo 1 1 (k - 2)
    let i := (Interval.ofSignificand m k).scale unit.1
    dropZeros 20 (search 17 i unit.2 (leadingExponent i.value unit.2))

/-! ## Layouts -/

/-- How digits are set out: the range of leading exponents written positionally, outside of which
an exponent is written, and whether a whole number keeps a fraction of one zero. -/
structure Layout where
  positional : Int → Bool
  keepsFraction : Bool

/-- The plain layout has no exponent, and no fraction where there is none. -/
def Layout.plain : Layout := ⟨fun _ => true, false⟩

/-- The explicit layout shows that a number is a double: it has a fraction or an exponent. From
`10 ^ 16` on and below `10 ^ -4` it writes an exponent. -/
def Layout.explicit : Layout := ⟨fun e => decide (-4 ≤ e ∧ e < 16), true⟩

def zeros (n : Nat) : String := String.ofList (List.replicate n '0')

/-- Digits with the point set `point` digits from the left. -/
def setPoint (digits : List Char) (point : Int) (keepsFraction : Bool) : String :=
  if point ≤ 0 then "0." ++ zeros (-point).toNat ++ String.ofList digits
  else if (digits.length : Int) ≤ point then
    String.ofList digits ++ zeros (point.toNat - digits.length)
      ++ (if keepsFraction then ".0" else "")
  else
    String.ofList (digits.take point.toNat) ++ "." ++ String.ofList (digits.drop point.toNat)

def setExponent (digits : List Char) (exponent : Int) : String :=
  String.ofList (digits.take 1)
    ++ (if digits.length ≤ 1 then "" else "." ++ String.ofList (digits.drop 1))
    ++ "e" ++ toString exponent

def render (layout : Layout) (d : Decimal) : String :=
  let digits := Nat.toDigits 10 d.digits
  let point : Int := digits.length + d.exponent
  if d.digits = 0 ∨ layout.positional (point - 1) then setPoint digits point layout.keepsFraction
  else setExponent digits (point - 1)

end Decimal

def Binary64.text (layout : Decimal.Layout) (x : Binary64) : String :=
  match x.reading with
  | .notANumber => "NaN"
  | .infinite negative => (if negative then "-" else "") ++ "inf"
  | .finite negative m k =>
    (if negative then "-" else "") ++ Decimal.render layout (Decimal.shortest m k)

end BlobExchange
