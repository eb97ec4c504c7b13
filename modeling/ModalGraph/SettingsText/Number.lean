import ModalGraph.Label.Decimal
import ModalGraph.Label.Numeral

/-!
# Numbers of settings text

A number is a zero, an infinity, or `m * 2 ^ e` with an odd `m`, and has a sign and a precision: how many bits its mantissa may
have. Every operation takes the exact result and rounds it to the precision of the result, a tie going to the even neighbour;
what grows beyond the exponents of 32 bits is an infinity, and what falls below them a zero. The text of a number is the fewest
digits that tell it apart from its neighbours of the same precision.
-/

namespace ModalGraph.SettingsText

/-- The size of a number. -/
inductive Magnitude where
  | zero
  /-- The number `mantissa * 2 ^ exponent`; the mantissa is odd. -/
  | finite (mantissa : Nat) (exponent : Int)
  | infinite
deriving DecidableEq, Repr, Inhabited

namespace Magnitude

/-- How many bits a natural has. -/
def width (n : Nat) : Nat :=
  if n = 0 then 0 else n.log2 + 1

/-- How often two divides a positive natural. -/
def twos (n : Nat) : Nat :=
  (n ^^^ (n - 1)).log2

/-- The least power of two above `m * 2 ^ e`, by its exponent. -/
def topOf (m : Nat) (e : Int) : Int :=
  e + width m

/-- The greatest exponent `k` of a number below `2 ^ k`. -/
def greatestTop : Int := Nat.pow 2 31 - 1

/-- The least exponent `k` of a number from `2 ^ (k - 1)` on. -/
def leastTop : Int := -Nat.pow 2 31

/-- The size `m * 2 ^ e` as far as exponents go. -/
def ofDyadic (m : Nat) (e : Int) : Magnitude :=
  if m = 0 then .zero
  else if greatestTop < topOf m e then .infinite
  else if topOf m e < leastTop then .zero
  else .finite (m / Nat.pow 2 (twos m)) (e + twos m)

/-- The size nearest to `m * 2 ^ e` among those with so many bits. -/
def nearest (precision m : Nat) (e : Int) : Magnitude :=
  let drop := width m - precision
  ofDyadic (Label.roundDiv m (Nat.pow 2 drop)) (e + drop)

/-- A natural as a size. -/
def ofNat (n : Nat) : Magnitude :=
  ofDyadic n 0

/-- The bits that a size needs. -/
def bits : Magnitude → Nat
  | .finite m _ => width m
  | _ => 0

/-- The product of two sizes. An infinite factor counts more than a zero. -/
def times (precision : Nat) : Magnitude → Magnitude → Magnitude
  | .infinite, _ => .infinite
  | _, .infinite => .infinite
  | .zero, _ => .zero
  | _, .zero => .zero
  | .finite m e, .finite n f => nearest precision (m * n) (e + f)

/-- The quotient of two sizes. A last bit stands for what the division leaves over, so that rounding sees it. -/
def quotient (precision : Nat) : Magnitude → Magnitude → Magnitude
  | .infinite, _ => .infinite
  | _, .infinite => .zero
  | .zero, _ => .zero
  | _, .zero => .infinite
  | .finite m e, .finite n f =>
    let shift := precision + 2 + width n - width m
    let x := m * Nat.pow 2 shift
    nearest precision (2 * (x / n) + if x % n = 0 then 0 else 1) (e - f - shift - 1)

/-- The order of two sizes. -/
def compare : Magnitude → Magnitude → Ordering
  | .zero, .zero => .eq
  | .zero, _ => .lt
  | _, .zero => .gt
  | .infinite, .infinite => .eq
  | .infinite, _ => .gt
  | _, .infinite => .lt
  | .finite m e, .finite n f =>
    (Ord.compare (topOf m e) (topOf n f)).then
      (Ord.compare (m * Nat.pow 2 (e - f).toNat) (n * Nat.pow 2 (f - e).toNat))

/-- The whole part of a size, none for an infinity. -/
def whole? : Magnitude → Option Nat
  | .zero => some 0
  | .finite m e => if topOf m e ≤ 0 then some 0 else some (m * Nat.pow 2 e.toNat / Nat.pow 2 (-e).toNat)
  | .infinite => none

/-- The squares of `square` as often as the bits of `n` say, multiplied into `acc`. The factor keeps more bits than the
product. -/
def powerFrom (precision : Nat) (acc square : Magnitude) (n : Nat) : Magnitude :=
  if n = 0 then acc
  else
    powerFrom precision (if n % 2 = 1 then acc.times precision square else acc) (square.times (precision + 64) square) (n / 2)
termination_by n

/-- The greatest power of five that a word of 64 bits holds. -/
def fivesInWord : Nat := 27

/-- The power `5 ^ n`, exact as far as a word goes, and beyond it with so many bits. -/
def powerOfFive (precision n : Nat) : Magnitude :=
  if n ≤ fivesInWord then ofNat (Nat.pow 5 n)
  else powerFrom precision (ofNat (Nat.pow 5 fivesInWord)) (ofNat 5) (n - fivesInWord)

end Magnitude

/-- A number. -/
structure Number where
  negative : Bool
  magnitude : Magnitude
  precision : Nat
deriving DecidableEq, Repr, Inhabited

namespace Number

/-! ## Reading -/

/-- The precision of numbers that are read. -/
def readPrecision : Nat := 512

/-- An exponent at the end of a numeral: whether it counts twos rather than tens, and the exponent. -/
def exponent? : List Char → Option (Bool × Int)
  | [] => some (false, 0)
  | mark :: rest =>
    let (negative, ds) := Numeral.sign rest
    let n := Numeral.value 10 ds
    let fits := if negative then n ≤ Nat.pow 2 63 else n < Nat.pow 2 63
    if (mark.toLower == 'e' || mark.toLower == 'p') && !ds.isEmpty && ds.all Numeral.isDigit && fits then
      some (mark.toLower == 'p', if negative then -(n : Int) else n)
    else none

/-- The size `n * 2 ^ twos * 5 ^ fives`; the powers of two must fit the range of exponents by themselves. -/
def scaled? (n : Nat) (twos fives : Int) : Option Magnitude :=
  if n = 0 then some .zero
  else
    let top := Magnitude.topOf n twos
    if top < Magnitude.leastTop || Magnitude.greatestTop < top then none
    else
      let factor := Magnitude.powerOfFive (readPrecision + 64) fives.natAbs
      let exact := Magnitude.ofDyadic n twos
      if fives = 0 then some (Magnitude.nearest readPrecision n twos)
      else if fives < 0 then some (exact.quotient readPrecision factor)
      else some (exact.times readPrecision factor)

/-- The number of a numeral: an optional sign, digits with at most one point, and an optional exponent; or an infinity. -/
def ofText? (text : String) : Option Number :=
  let (negative, rest) := Numeral.sign text.toList
  if rest == "Inf".toList || rest == "inf".toList then some ⟨negative, .infinite, readPrecision⟩
  else
    let (whole, fraction, tail) := Numeral.mantissa 10 rest
    if text.toList.contains '_' || (whole.isEmpty && fraction.isEmpty) then none
    else do
      let (binary, e) ← exponent? tail
      let point : Int := -(fraction.length : Int)
      let size ← scaled? (Numeral.value 10 (whole ++ fraction)) (point + e) (if binary then point else point + e)
      return ⟨negative, size, readPrecision⟩

/-- A place in a sequence as a number. -/
def ofPlace (n : Nat) : Number :=
  ⟨false, Magnitude.ofNat n, 64⟩

/-! ## Arithmetic -/

def negate (a : Number) : Number :=
  { a with negative := !a.negative }

def isZero (a : Number) : Bool :=
  a.magnitude == .zero

def isInfinite (a : Number) : Bool :=
  a.magnitude == .infinite

/-- The sum of two finite sizes with their signs. What is far too small to change the other one is left out. -/
def sumFinite (precision : Nat) (p : Bool) (m : Nat) (e : Int) (q : Bool) (n : Nat) (f : Int) : Number :=
  if f + Magnitude.width n + precision + 2 < e then ⟨p, .finite m e, precision⟩
  else if e + Magnitude.width m + precision + 2 < f then ⟨q, .finite n f, precision⟩
  else
    let least := if e ≤ f then e else f
    let x : Int := m * Nat.pow 2 (e - least).toNat
    let y : Int := n * Nat.pow 2 (f - least).toNat
    let sum := (if p then -x else x) + (if q then -y else y)
    ⟨sum < 0, Magnitude.nearest precision sum.natAbs least, precision⟩

/-- The sum of two numbers with the precision of the result. Infinities of opposite signs have no sum; a sum of zeros is
negative only if both are. -/
def addTo? (precision : Nat) (a b : Number) : Option Number :=
  match a.magnitude, b.magnitude with
  | .finite m e, .finite n f => some (sumFinite precision a.negative m e b.negative n f)
  | .infinite, .infinite => if a.negative == b.negative then some { a with precision } else none
  | .zero, .zero => some ⟨a.negative && b.negative, .zero, precision⟩
  | .infinite, _ => some { a with precision }
  | _, .zero => some { a with precision }
  | _, _ => some { b with precision }

/-- The greater of two precisions. -/
def commonPrecision (a b : Number) : Nat :=
  Nat.max a.precision b.precision

def add? (a b : Number) : Option Number :=
  addTo? (commonPrecision a b) a b

def subtract? (a b : Number) : Option Number :=
  a.add? b.negate

/-- The product of two numbers with so many bits. A zero has no product with an infinity. -/
def multiplyTo? (precision : Nat) (a b : Number) : Option Number :=
  if (a.isZero && b.isInfinite) || (a.isInfinite && b.isZero) then none
  else some ⟨a.negative != b.negative, a.magnitude.times precision b.magnitude, precision⟩

/-- The product of two numbers. It keeps the bits that it needs if they are more than those of the factors. -/
def multiply? (a b : Number) : Option Number :=
  (multiplyTo? readPrecision a b).map fun c =>
    { c with precision := Nat.max (commonPrecision a b) c.magnitude.bits }

/-- The quotient of two numbers. Two zeros and two infinities have none. -/
def divide? (a b : Number) : Option Number :=
  if (a.isZero && b.isZero) || (a.isInfinite && b.isInfinite) then none
  else
    let precision := commonPrecision a b
    some ⟨a.negative != b.negative, a.magnitude.quotient precision b.magnitude, precision⟩

/-- What is left of a number after taking another one away as often as the whole part of their quotient says, each step rounded
to the precision of the first. Nothing is taken away if the other one is zero. -/
def modulo? (a b : Number) : Option Number :=
  if b.isZero then some a
  else do
    let ratio ← a.divide? b
    let times ← ratio.magnitude.whole?
    let count : Number := ⟨ratio.negative && times != 0, Magnitude.nearest a.precision times 0, a.precision⟩
    let taken ← multiplyTo? a.precision b count
    addTo? a.precision a taken.negate

/-! ## Order -/

def less (a b : Number) : Bool :=
  match a.isZero && b.isZero, a.negative, b.negative with
  | true, _, _ => false
  | false, true, false => true
  | false, false, true => false
  | false, false, false => a.magnitude.compare b.magnitude == .lt
  | false, true, true => a.magnitude.compare b.magnitude == .gt

/-! ## Text -/

/-- The first digits of a positive number without zeros at their end, the place of its point, and whether these are all its
digits. -/
structure Leading where
  digits : List Nat
  point : Int
  complete : Bool

/-- The first `count` digits of `m * 2 ^ e`. -/
def leading (count m : Nat) (e : Int) : Leading :=
  let num := m * Nat.pow 2 e.toNat
  let den := Nat.pow 2 (-e).toNat
  let point := Decimal.leadingPlace num den
  let shift : Int := count - point
  let n := num * Nat.pow 10 shift.toNat
  let d := den * Nat.pow 10 (-shift).toNat
  ⟨Decimal.trimZeros (Decimal.digitsOf (n / d)), point, n % d == 0⟩

namespace Leading

def digitAt (l : Leading) (i : Nat) : Nat :=
  l.digits.getD i 0

/-- Whether a number has no more than `n` digits. -/
def endsBy (l : Leading) (n : Nat) : Bool :=
  l.complete && l.digits.length ≤ n

/-- The first `n` digits alone. -/
def truncate (l : Leading) (n : Nat) : Decimal.Digits :=
  ⟨Decimal.trimZeros (l.digits.take n), l.point⟩

/-- The first `n` digits, the last of them counted up by one. -/
def roundUp (l : Leading) (n : Nat) : Decimal.Digits :=
  Decimal.ofScaled ((l.digits.take n).foldl (fun v d => v * 10 + d) 0 + 1) (l.point - n)

/-- The `n` digits that are nearest; a tie goes to the even ones. -/
def round (l : Leading) (n : Nat) : Decimal.Digits :=
  let next := l.digitAt n
  let up := if next == 5 && l.endsBy (n + 1) then 0 < n && l.digitAt (n - 1) % 2 == 1 else 5 ≤ next
  if up then l.roundUp n else l.truncate n

end Leading

/-- The digits of `x` up to the first place at which they tell it apart from the numbers beyond `lower` and `upper`; these
bounds count in if `closed`. The places from `i` on are looked at. -/
def shortestFrom (lower x upper : Leading) (closed : Bool) (i : Nat) : Nat → Decimal.Digits
  | 0 => ⟨x.digits, x.point⟩
  | more + 1 =>
    if x.endsBy (i + 1) then ⟨x.digits, x.point⟩
    else
      let down := lower.digitAt i != x.digitAt i || (closed && lower.endsBy (i + 1))
      let up := x.digitAt i != upper.digitAt i && (closed || x.digitAt i + 1 < upper.digitAt i || !upper.endsBy (i + 1))
      if down && up then x.round (i + 1)
      else if down then x.truncate (i + 1)
      else if up then x.roundUp (i + 1)
      else shortestFrom lower x upper closed (i + 1) more

/-- The fewest digits of `m * 2 ^ e` that its precision asks for. -/
def digits (precision m : Nat) (e : Int) : Decimal.Digits :=
  let shift := precision + 1 - Magnitude.width m
  let unit := m * Nat.pow 2 shift
  let count := precision * 30103 / 100000 + 5
  let first := fun n => leading count n (e - shift)
  shortestFrom (first (unit - 1)) (first unit) (first (unit + 1)) (unit / 2 % 2 == 0) 0 count

/-- The text of a number, without exponent. -/
def text (a : Number) : String :=
  match a.magnitude with
  | .infinite => if a.negative then "-Inf" else "+Inf"
  | .zero => if a.negative then "-0" else "0"
  | .finite m e =>
    String.ofList ((if a.negative then ['-'] else []) ++ Decimal.positional (digits a.precision m e))

/-- Equality of numbers: two zeros, or two numbers with one text. -/
def same (a b : Number) : Bool :=
  match a.magnitude, b.magnitude with
  | .finite m e, .finite n f => a.negative == b.negative && digits a.precision m e == digits b.precision n f
  | .zero, .zero => true
  | .infinite, .infinite => a.negative == b.negative
  | _, _ => false

/-! ## Labels and whole numbers -/

/-- The label nearest to a number; none if a finite number lies beyond the finite labels. -/
def label? (a : Number) : Option Label :=
  match a.magnitude with
  | .infinite => some (if a.negative then Label.negInf else Label.posInf)
  | .zero => some (Label.ofMagnitude a.negative 0)
  | .finite m e =>
    if 1100 < Magnitude.topOf m e then none
    else if Magnitude.topOf m e < -1100 then some (Label.ofMagnitude a.negative 0)
    else
      let v := Label.ofDyadic a.negative m e
      if v.isInfinite then none else some v

/-- The whole number of 64 bits that a number is. -/
def int64? (a : Number) : Option Int :=
  match a.magnitude with
  | .infinite => none
  | .zero => some 0
  | .finite m e =>
    if e < 0 || 64 < Magnitude.topOf m e then none
    else
      let n : Int := if a.negative then -(m * Nat.pow 2 e.toNat : Nat) else (m * Nat.pow 2 e.toNat : Nat)
      if -(Nat.pow 2 63) ≤ n ∧ n < Nat.pow 2 63 then some n else none

end Number

end ModalGraph.SettingsText
