import ModalGraph.Label.Numeral
import ModalGraph.Text.Quoted

/-!
# Durations

A duration is a whole number of nanoseconds. It is written as a sum of amounts with units, such as `1h30m` or `1.5s`, with an
optional sign; a zero needs no unit. It must fit in 64 bits with sign.
-/

namespace ModalGraph.Duration

/-- The units, with the nanoseconds in each. The micro sign and the Greek letter mean the same. -/
def units : List (String × Nat) :=
  [("ns", 1), ("us", 1000), ("\u00b5s", 1000), ("\u03bcs", 1000), ("ms", 1000000), ("s", 1000000000), ("m", 60000000000),
    ("h", 3600000000000)]

/-- What can be wrong with a text for a duration. -/
inductive Fault where
  | malformed (text : String)
  | unitMissing (text : String)
  | unknownUnit (unit text : String)
deriving DecidableEq, Repr

/-- A character between the quotes of a fault: control characters and characters outside ASCII are written by their bytes. -/
def quoteChar (c : Char) : List Char :=
  if c.toNat < 0x20 || 0x80 ≤ c.toNat then (Bytes.ofChar c).flatMap fun b => '\\' :: 'x' :: Text.hexByte b
  else if c == '"' || c == '\\' then ['\\', c]
  else [c]

/-- A text between double quotes. -/
def quote (s : String) : String :=
  String.ofList ('"' :: (s.toList.flatMap quoteChar ++ ['"']))

/-- The wording of a fault. -/
def Fault.message : Fault → String
  | .malformed text => "time: invalid duration " ++ quote text
  | .unitMissing text => "time: missing unit in duration " ++ quote text
  | .unknownUnit unit text => "time: unknown unit " ++ quote unit ++ " in duration " ++ quote text

/-- A character of an amount: a digit or the point. -/
def isAmount (c : Char) : Bool :=
  Numeral.isDigit c || c == '.'

/-- The digits before a point, those after it, and the rest. -/
def amount (cs : List Char) : List Char × List Char × List Char :=
  let whole := cs.takeWhile Numeral.isDigit
  match cs.dropWhile Numeral.isDigit with
  | '.' :: rest => (whole, rest.takeWhile Numeral.isDigit, rest.dropWhile Numeral.isDigit)
  | rest => (whole, [], rest)

/-- Digits after a point, as far as they count: their number, and the power of ten that it is to be divided by. -/
structure Fraction where
  digits : Nat := 0
  scale : Label := Label.one
  /-- Whether the digits no longer fit in 64 bits; then no more of them count. -/
  isFull : Bool := false

/-- A fraction with one more digit. -/
def Fraction.push (f : Fraction) (c : Char) : Fraction :=
  let next := f.digits * 10 + Numeral.value 10 [c]
  if f.isFull || (Nat.pow 2 63 - 1) / 10 < f.digits || Nat.pow 2 63 < next then { f with isFull := true }
  else { f with digits := next, scale := f.scale.mul (Label.ofNat 10) }

/-- A number divided by a positive label, rounded to a label. -/
def ratio (n : Nat) (v : Label) : Label :=
  if v.isInfinite then Label.zero
  else Label.ofRatio false (n * Nat.pow 2 (-v.exponent).toNat) (v.mantissa * Nat.pow 2 v.exponent.toNat)

/-- The nanoseconds of a fraction of a unit. The unit is divided first, and each step is rounded. -/
def Fraction.nanoseconds (f : Fraction) (unit : Nat) : Nat :=
  ((Label.ofNat f.digits).mul (ratio unit f.scale)).wholePart

/-- The nanoseconds of a sum of amounts, and of what was summed before. No amount may be above `2 ^ 63`, nor a sum, which is counted
in words of 64 bits. The fuel is at least the number of characters. -/
def total (text : String) : Nat → Nat → List Char → Except Fault Nat
  | _, sum, [] => .ok sum
  | 0, _, _ => .error (.malformed text)
  | fuel + 1, sum, cs =>
    let (whole, fraction, rest) := amount cs
    let unit := String.ofList (rest.takeWhile fun c => !isAmount c)
    if (whole.isEmpty && fraction.isEmpty) || Nat.pow 2 63 < Numeral.value 10 whole then .error (.malformed text)
    else if unit.isEmpty then .error (.unitMissing text)
    else
      match units.lookup unit with
      | none => .error (.unknownUnit unit text)
      | some n =>
        let part := Numeral.value 10 whole * n + (fraction.foldl Fraction.push {}).nanoseconds n
        let next := (sum + part) % Nat.pow 2 64
        if Nat.pow 2 63 < part || Nat.pow 2 63 < next then .error (.malformed text)
        else total text fuel next (rest.dropWhile fun c => !isAmount c)

/-- The duration of a text. -/
def parse (text : String) : Except Fault Int :=
  let (negative, cs) := Numeral.sign text.toList
  if cs == ['0'] then .ok 0
  else if cs.isEmpty then .error (.malformed text)
  else
    match total text cs.length 0 cs with
    | .error f => .error f
    | .ok n => if negative then .ok (-n) else if n = Nat.pow 2 63 then .error (.malformed text) else .ok n

/-- A number with `places` decimal places of which trailing zeros are left out. -/
def withPlaces (places n : Nat) : String :=
  let digits := (toString (n % Nat.pow 10 places)).toList
  let padded := List.replicate (places - digits.length) '0' ++ digits
  let shown := (padded.reverse.dropWhile (· == '0')).reverse
  toString (n / Nat.pow 10 places) ++ if shown.isEmpty then "" else "." ++ String.ofList shown

/-- The text of a number of nanoseconds. -/
def text (n : Nat) : String :=
  if n = 0 then "0s"
  else if n < 1000 then s!"{n}ns"
  else if n < 1000000 then withPlaces 3 n ++ "\u00b5s"
  else if n < 1000000000 then withPlaces 6 n ++ "ms"
  else
    let minutes := n / 60000000000
    let seconds := withPlaces 9 (n % 60000000000) ++ "s"
    if minutes = 0 then seconds
    else if minutes < 60 then s!"{minutes}m" ++ seconds
    else s!"{minutes / 60}h{minutes % 60}m" ++ seconds

end ModalGraph.Duration
