/-!
# Labels

A label is a number in the binary64 format, kept by its bit pattern so that nothing of it is lost on the way from one store to
another. Its finite values are the numbers `m * 2 ^ e`; arithmetic takes the exact result and rounds it to the nearest label, a
tie going to the even one (`nearest`, `ofRatio`). Comparison is by value: the two zeros are equal, and a NaN equals nothing.
-/

namespace ModalGraph

/-- A number in the binary64 format, by its bit pattern. -/
structure Label where
  bits : UInt64
deriving DecidableEq, Repr, Inhabited, Hashable

namespace Label

/-! ## Parts of a label -/

/-- The bits without the sign. -/
def magnitude (v : Label) : Nat :=
  (v.bits &&& 0x7FFFFFFFFFFFFFFF).toNat

/-- The sign bit. -/
def isNegative (v : Label) : Bool :=
  v.bits &&& 0x8000000000000000 != 0

/-- The magnitude of the infinities. -/
def infiniteMagnitude : Nat := 0x7FF0000000000000

def isNaN (v : Label) : Bool :=
  infiniteMagnitude < v.magnitude

def isInfinite (v : Label) : Bool :=
  v.magnitude == infiniteMagnitude

/-- Zero of either sign. -/
def isZero (v : Label) : Bool :=
  v.magnitude == 0

/-- The exponent field. -/
def exponentField (v : Label) : Nat :=
  v.magnitude / Nat.pow 2 52

/-- The whole number `m` of a finite label `± m * 2 ^ e`. -/
def mantissa (v : Label) : Nat :=
  if v.exponentField = 0 then v.magnitude % Nat.pow 2 52 else v.magnitude % Nat.pow 2 52 + Nat.pow 2 52

/-- The exponent `e` of a finite label `± m * 2 ^ e`. -/
def exponent (v : Label) : Int :=
  if v.exponentField = 0 then -1074 else v.exponentField - 1075

/-- The mantissa with the sign of the label. -/
def signedMantissa (v : Label) : Int :=
  if v.isNegative then -v.mantissa else v.mantissa

/-- The label with a given sign and magnitude. -/
def ofMagnitude (negative : Bool) (magnitude : Nat) : Label :=
  ⟨magnitude.toUInt64 ||| (if negative then 0x8000000000000000 else 0)⟩

/-! ## Constants -/

def zero : Label := ⟨0⟩

def negZero : Label := ⟨0x8000000000000000⟩

def one : Label := ⟨0x3FF0000000000000⟩

def posInf : Label := ⟨0x7FF0000000000000⟩

def negInf : Label := ⟨0xFFF0000000000000⟩

/-- The NaN that texts and selections yield. -/
def nan : Label := ⟨0x7FF8000000000001⟩

/-- The NaN that arithmetic without a result yields. -/
def invalid : Label := ⟨0xFFF8000000000000⟩

/-- One for true, zero for false. -/
def ofBool (b : Bool) : Label :=
  if b then one else zero

/-! ## Rounding -/

/-- The quotient of two naturals, rounded to the nearest one; a tie goes to the even one. -/
def roundDiv (num den : Nat) : Nat :=
  let q := num / den
  let r := num % den
  if den < 2 * r || (den == 2 * r && q % 2 == 1) then q + 1 else q

/-- The ratio of two naturals in units of `2 ^ e`, as a ratio again. -/
def inUnits (num den : Nat) (e : Int) : Nat × Nat :=
  (num * Nat.pow 2 (-e).toNat, den * Nat.pow 2 e.toNat)

/-- The exponent of the last place of a positive ratio that keeps `precision` bits, not below `least`. -/
def lastPlace (precision : Nat) (least : Int) (num den : Nat) : Int :=
  let guess : Int := (num.log2 : Int) - den.log2 - (precision - 1)
  let (n, d) := inUnits num den guess
  let e := if n < d * Nat.pow 2 (precision - 1) then guess - 1 else guess
  if e < least then least else e

/-- The multiple `q * 2 ^ e` nearest to a positive ratio among those with `precision` bits and `e` not below `least`; a tie
goes to the even one. -/
def nearest (precision : Nat) (least : Int) (num den : Nat) : Nat × Int :=
  let e := lastPlace precision least num den
  let (n, d) := inUnits num den e
  (roundDiv n d, e)

/-- The label nearest to a ratio of naturals; beyond the finite labels it is an infinity. -/
def ofRatio (negative : Bool) (num den : Nat) : Label :=
  if num = 0 then ofMagnitude negative 0
  else
    let (q, e) := nearest 53 (-1074) num den
    ofMagnitude negative (Nat.min infiniteMagnitude ((e + 1074).toNat * Nat.pow 2 52 + q))

/-- The label nearest to `m * 2 ^ e`. -/
def ofDyadic (negative : Bool) (m : Nat) (e : Int) : Label :=
  ofRatio negative (m * Nat.pow 2 e.toNat) (Nat.pow 2 (-e).toNat)

/-- The label nearest to an integer. -/
def ofInt (n : Int) : Label :=
  ofRatio (n < 0) n.natAbs 1

/-- The label nearest to a natural. -/
def ofNat (n : Nat) : Label :=
  ofRatio false n 1

/-! ## Comparison -/

/-- A number that orders the labels that are numbers. -/
def rank (v : Label) : Int :=
  if v.isNegative then -v.magnitude else v.magnitude

/-- Equality of value. -/
def same (a b : Label) : Bool :=
  !a.isNaN && !b.isNaN && a.rank == b.rank

/-- Order of value. -/
def less (a b : Label) : Bool :=
  !a.isNaN && !b.isNaN && a.rank < b.rank

/-- The greater of two labels. Positive infinity wins over all, then a NaN; of two zeros the positive one is greater. -/
def max (a b : Label) : Label :=
  if a == posInf || b == posInf then posInf
  else if a.isNaN || b.isNaN then nan
  else if a.isZero && b.isZero then (if a.isNegative then b else a)
  else if b.less a then a
  else b

/-- The smaller of two labels. Negative infinity wins over all, then a NaN; of two zeros the negative one is smaller. -/
def min (a b : Label) : Label :=
  if a == negInf || b == negInf then negInf
  else if a.isNaN || b.isNaN then nan
  else if a.isZero && b.isZero then (if a.isNegative then a else b)
  else if a.less b then a
  else b

/-! ## Arithmetic -/

/-- A NaN operand as the result of an operation. -/
def quiet (v : Label) : Label :=
  ⟨v.bits ||| 0x0008000000000000⟩

def neg (v : Label) : Label :=
  ⟨v.bits ^^^ 0x8000000000000000⟩

/-- The sum of two finite labels: the exact sum, rounded. An exact zero is negative only if both terms are. -/
def addFinite (a b : Label) : Label :=
  let e : Int := if a.exponent ≤ b.exponent then a.exponent else b.exponent
  let n : Int :=
    a.signedMantissa * Nat.pow 2 (a.exponent - e).toNat + b.signedMantissa * Nat.pow 2 (b.exponent - e).toNat
  if n = 0 then (if a.isNegative && b.isNegative then negZero else zero)
  else ofDyadic (n < 0) n.natAbs e

def add (a b : Label) : Label :=
  if a.isNaN then a.quiet
  else if b.isNaN then b.quiet
  else if a.isInfinite then (if b.isInfinite && a.isNegative != b.isNegative then invalid else a)
  else if b.isInfinite then b
  else addFinite a b

/-- A difference: the sum with the opposite, a NaN kept with its own sign. -/
def sub (a b : Label) : Label :=
  if b.isNaN then (if a.isNaN then a.quiet else b.quiet) else a.add b.neg

def mul (a b : Label) : Label :=
  let negative := a.isNegative != b.isNegative
  if a.isNaN then a.quiet
  else if b.isNaN then b.quiet
  else if a.isInfinite || b.isInfinite then
    (if a.isZero || b.isZero then invalid else ofMagnitude negative infiniteMagnitude)
  else ofDyadic negative (a.mantissa * b.mantissa) (a.exponent + b.exponent)

/-- Half a label. -/
def half (v : Label) : Label :=
  v.mul ⟨0x3FE0000000000000⟩

/-! ## Whole numbers -/

/-- The whole part of the magnitude of a finite label. -/
def wholePart (v : Label) : Nat :=
  v.mantissa * Nat.pow 2 v.exponent.toNat / Nat.pow 2 (-v.exponent).toNat

/-- The label without its fraction, rounded toward zero; the sign stays, also on zero. -/
def truncate (v : Label) : Label :=
  if v.isNaN || v.isInfinite then v else ofRatio v.isNegative v.wholePart 1

/-- The whole part with its sign if it lies in `[-2 ^ (width - 1), 2 ^ (width - 1))`, else the least number there. -/
def toSigned (width : Nat) (v : Label) : Int :=
  let least : Int := -(Nat.pow 2 (width - 1))
  if v.isNaN || v.isInfinite then least
  else
    let n : Int := if v.isNegative then -v.wholePart else v.wholePart
    if least ≤ n && n < -least then n else least

/-- The nearest number of the binary32 format. -/
def toSingle (v : Label) : Label :=
  if v.isNaN then ⟨v.quiet.bits &&& 0xFFFFFFFFE0000000⟩
  else if v.isInfinite || v.isZero then v
  else
    let (q, e) :=
      nearest 24 (-149) (v.mantissa * Nat.pow 2 v.exponent.toNat) (Nat.pow 2 (-v.exponent).toNat)
    if Nat.pow 2 128 ≤ q * Nat.pow 2 e.toNat then ofMagnitude v.isNegative infiniteMagnitude
    else ofDyadic v.isNegative q e

end Label

end ModalGraph
