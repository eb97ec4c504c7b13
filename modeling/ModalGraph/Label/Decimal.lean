import ModalGraph.Label.Basic

/-!
# The shortest decimal of a label

Every decimal in an interval around a finite label rounds to it. `shortest` takes the coarsest decimal grid that has a point in
this interval, and of its points there the nearest one: the fewest digits that read back. Where two points are equally near,
the even one is taken. `Layout` says how digits are set as text.
-/

namespace ModalGraph.Decimal

/-- A positive decimal `0.d₁d₂… * 10 ^ point`, by its digits without trailing zeros. -/
structure Digits where
  digits : List Nat
  point : Int
deriving DecidableEq, Repr

/-- The decimal digits of a natural, most significant first. -/
def digitsOf (n : Nat) : List Nat :=
  (Nat.toDigits 10 n).map fun c => c.toNat - '0'.toNat

/-- Digits without the zeros at the end. -/
def trimZeros (ds : List Nat) : List Nat :=
  (ds.reverse.dropWhile (· == 0)).reverse

/-- The natural `n * 10 ^ unit` as digits. -/
def ofScaled (n : Nat) (unit : Int) : Digits :=
  let ds := digitsOf n
  ⟨trimZeros ds, ds.length + unit⟩

/-- A positive label with the ends of its interval, all over one denominator. The interval holds its ends if `closed`. -/
structure Interval where
  low : Nat
  value : Nat
  high : Nat
  den : Nat
  closed : Bool
deriving Repr

/-- The reals that round to a positive finite label. The gap below a power of two is half the gap above it. -/
def interval (v : Label) : Interval :=
  let m := v.mantissa
  let narrow := v.magnitude % Nat.pow 2 52 == 0 && 1 < v.exponentField
  let scale := Nat.pow 2 (v.exponent - 2).toNat
  { low := (4 * m - if narrow then 1 else 2) * scale
    value := 4 * m * scale
    high := (4 * m + 2) * scale
    den := Nat.pow 2 (2 - v.exponent).toNat
    closed := m % 2 == 0 }

/-- An interval in units of `10 ^ unit`. -/
def Interval.inUnits (i : Interval) (unit : Int) : Interval :=
  let up := Nat.pow 10 (-unit).toNat
  { i with low := i.low * up, value := i.value * up, high := i.high * up, den := i.den * Nat.pow 10 unit.toNat }

/-- Whether a whole number of units lies in the interval. -/
def Interval.contains (i : Interval) (n : Nat) : Bool :=
  let x := n * i.den
  if i.closed then i.low ≤ x && x ≤ i.high else i.low < x && x < i.high

/-- The point of the grid that is in the interval and nearest to its label. -/
def Interval.gridPoint? (i : Interval) : Option Nat :=
  let n := i.value / i.den
  let below := i.contains n
  let above := i.contains (n + 1)
  if below && above then
    let r := i.value % i.den
    some (if 2 * r < i.den || (2 * r == i.den && n % 2 == 0) then n else n + 1)
  else if below then some n
  else if above then some (n + 1)
  else none

/-- Whether a ratio is at least `10 ^ k`. -/
def reaches (num den : Nat) (k : Int) : Bool :=
  den * Nat.pow 10 k.toNat ≤ num * Nat.pow 10 (-k).toNat

/-- The exponent `k` with `10 ^ (k - 1) ≤ num / den < 10 ^ k`, for a positive ratio. The binary logarithm gives it up to one
place on either side. -/
def leadingPlace (num den : Nat) : Int :=
  let b : Int := (num.log2 : Int) - den.log2
  let k := Int.fdiv (b * 30103) 100000
  if reaches num den (k + 1) then k + 2 else if reaches num den k then k + 1 else k

/-- The exponent `k` with `10 ^ (k - 1) ≤ v < 10 ^ k`, for a positive finite label. -/
def leading (v : Label) : Int :=
  leadingPlace (v.mantissa * Nat.pow 2 v.exponent.toNat) (Nat.pow 2 (-v.exponent).toNat)

/-- The grid point with the fewest digits, trying `count` digits and more. -/
def search (i : Interval) (k : Int) (count : Nat) : Nat → Digits
  | 0 => ofScaled 0 0
  | more + 1 =>
    let unit := k - count
    match (i.inUnits unit).gridPoint? with
    | some n => ofScaled n unit
    | none => search i k (count + 1) more

/-- The fewest digits that read back as a positive finite label. Seventeen always suffice. -/
def shortest (v : Label) : Digits :=
  search (interval v) (leading v) 1 17

/-! ## Setting digits as text -/

/-- How a label is written: positionally when the exponent of its first digit is in `[positionalFrom, positionalTo)`, else
with an exponent of at least `exponentDigits` digits and a sign. -/
structure Layout where
  positionalFrom : Int
  positionalTo : Int
  exponentDigits : Nat
  nan : String
  posInf : String
  negInf : String

/-- The layout of labels in answers. -/
def labelLayout : Layout :=
  ⟨-4, 6, 2, "NaN", "+Inf", "-Inf"⟩

/-- The layout of labels as numbers of a document. -/
def numberLayout : Layout :=
  ⟨-6, 21, 1, "NaN", "+Inf", "-Inf"⟩

/-- The character of a digit. -/
def digitChar (d : Nat) : Char :=
  Nat.digitChar d

/-- Digits around a decimal point. -/
def positional (d : Digits) : List Char :=
  let cs := d.digits.map digitChar
  if d.point ≤ 0 then '0' :: '.' :: (List.replicate (-d.point).toNat '0' ++ cs)
  else
    let n := d.point.toNat
    if cs.length ≤ n then cs ++ List.replicate (n - cs.length) '0'
    else cs.take n ++ '.' :: cs.drop n

/-- Digits with an exponent. -/
def scientific (layout : Layout) (d : Digits) : List Char :=
  let cs := d.digits.map digitChar
  let e := d.point - 1
  let es := (toString e.natAbs).toList
  cs.take 1 ++ (if 1 < cs.length then '.' :: cs.drop 1 else []) ++ 'e' :: (if e < 0 then '-' else '+') ::
    (List.replicate (layout.exponentDigits - es.length) '0' ++ es)

/-- The text of a label. -/
def write (layout : Layout) (v : Label) : String :=
  if v.isNaN then layout.nan
  else if v.isInfinite then (if v.isNegative then layout.negInf else layout.posInf)
  else
    let body :=
      if v.isZero then ['0']
      else
        let d := shortest v
        if layout.positionalFrom ≤ d.point - 1 && d.point - 1 < layout.positionalTo then positional d
        else scientific layout d
    String.ofList (if v.isNegative then '-' :: body else body)

end ModalGraph.Decimal

namespace ModalGraph.Label

/-- The text of a label in answers. -/
def text (v : Label) : String :=
  Decimal.write Decimal.labelLayout v

/-- The spelling of a finite label as a number of a document. -/
def numberText (v : Label) : String :=
  Decimal.write Decimal.numberLayout v

end ModalGraph.Label
