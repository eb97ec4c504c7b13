import ModalGraph.Label.Basic
import ModalGraph.Text.Bytes

/-!
# Numerals

Reading numbers from text: whole numbers of 64 bits, and labels from decimal or hexadecimal numerals. A numeral is read as an
exact ratio and then rounded, so the result is the nearest label. Single underscores may stand between digits and after a base
mark.
-/

namespace ModalGraph.Numeral

/-- A decimal digit of ASCII. -/
def isDigit (c : Char) : Bool :=
  '0' ≤ c && c ≤ '9'

/-- The value of a digit in a base up to 16. -/
def digit? (base : Nat) (c : Char) : Option Nat :=
  let n :=
    if isDigit c then c.toNat - '0'.toNat
    else if 'a' ≤ c && c ≤ 'f' then c.toNat - 'a'.toNat + 10
    else if 'A' ≤ c && c ≤ 'F' then c.toNat - 'A'.toNat + 10
    else 16
  if n < base then some n else none

/-- The value of some digits. -/
def value (base : Nat) (cs : List Char) : Nat :=
  cs.foldl (fun n c => n * base + (digit? base c).getD 0) 0

/-- A sign and the characters after it. -/
def sign : List Char → Bool × List Char
  | '+' :: cs => (false, cs)
  | '-' :: cs => (true, cs)
  | cs => (false, cs)

/-- The whole number of a text of decimal digits with an optional sign, if it fits in 64 bits with sign. -/
def int64? (cs : List Char) : Option Int :=
  let (negative, ds) := sign cs
  if ds.isEmpty || !ds.all isDigit then none
  else
    let n : Int := if negative then -(value 10 ds) else value 10 ds
    if -(Nat.pow 2 63) ≤ n && n < Nat.pow 2 63 then some n else none

/-- What a text of digits and underscores looked like last: its start, a digit, an underscore, or anything else. -/
inductive Seen where
  | start
  | digit
  | underscore
  | other
deriving DecidableEq

/-- Whether every underscore stands after a digit and before a digit. -/
def underscoresFrom (hex : Bool) : Seen → List Char → Bool
  | seen, [] => seen != .underscore
  | seen, c :: cs =>
    if (digit? (if hex then 16 else 10) c).isSome then underscoresFrom hex .digit cs
    else if c == '_' then seen == .digit && underscoresFrom hex .underscore cs
    else seen != .underscore && underscoresFrom hex .other cs

/-- Whether the underscores of a numeral are well placed; a base mark counts as a digit. -/
def underscoresOk (cs : List Char) : Bool :=
  match (sign cs).2 with
  | '0' :: m :: rest =>
    if m == 'x' || m == 'X' then underscoresFrom true .digit rest
    else if m == 'b' || m == 'B' || m == 'o' || m == 'O' then underscoresFrom false .digit rest
    else underscoresFrom false .start ('0' :: m :: rest)
  | cs => underscoresFrom false .start cs

/-- What can be wrong with a whole number. -/
inductive Fault where
  | malformed
  | outOfRange
deriving DecidableEq, Repr

/-- The base that a whole number without sign is written in, and its digits: two for `0b`, eight for `0o` or a leading zero,
sixteen for `0x`, and otherwise ten. -/
def baseAndDigits : List Char → Nat × List Char
  | '0' :: mark :: c :: cs =>
    match mark.toLower with
    | 'b' => (2, c :: cs)
    | 'o' => (8, c :: cs)
    | 'x' => (16, c :: cs)
    | _ => (8, mark :: c :: cs)
  | '0' :: cs => (8, cs)
  | cs => (10, cs)

/-- The number of some digits after a number, with underscores passed over. It may not outgrow a word of 64 bits, and what stands
after the digit at which it does is not looked at. -/
def word (base : Nat) : Nat → List Char → Except Fault Nat
  | n, [] => .ok n
  | n, c :: cs =>
    if c == '_' then word base n cs
    else
      match digit? base c with
      | none => .error .malformed
      | some d => if Nat.pow 2 64 ≤ n * base + d then .error .outOfRange else word base (n * base + d) cs

/-- The whole number of a text in any base with an optional sign, if it fits in 64 bits with sign. -/
def anyBaseInt64 (cs : List Char) : Except Fault Int :=
  let (negative, ds) := sign cs
  if ds.isEmpty then .error .malformed
  else
    let (base, digits) := baseAndDigits ds
    match word base 0 digits with
    | .error f => .error f
    | .ok n =>
      if ds.contains '_' && !underscoresOk ds then .error .malformed
      else if negative then if Nat.pow 2 63 < n then .error .outOfRange else .ok (-n)
      else if Nat.pow 2 63 ≤ n then .error .outOfRange
      else .ok n

/-- A numeral taken apart: its digits, how many of them follow the point, and its exponent. -/
structure Parts where
  digits : Nat
  fraction : Nat
  exponent : Int
deriving Repr

/-- Digits of a base with at most one point: the digits before it, those after it, and the rest. Underscores are passed over. -/
def mantissa (base : Nat) (cs : List Char) : List Char × List Char × List Char :=
  let run := fun cs : List Char =>
    let isPart := fun c => (digit? base c).isSome || c == '_'
    ((cs.takeWhile isPart).filter (· != '_'), cs.dropWhile isPart)
  let (whole, rest) := run cs
  match rest with
  | '.' :: rest =>
    let (fraction, rest) := run rest
    (whole, fraction, rest)
  | rest => (whole, [], rest)

/-- The number of some digits of an exponent. Leading zeros aside, only the first five digits count. -/
def exponentValue (ds : List Char) : Nat :=
  ds.foldl (fun e c => if e < 10000 then e * 10 + (digit? 10 c).getD 0 else e) 0

/-- An exponent: an optional sign and digits. -/
def exponent? (cs : List Char) : Option (Int × List Char) :=
  let (negative, rest) := sign cs
  match rest with
  | [] => none
  | c :: _ =>
    if isDigit c then
      let isPart := fun c => isDigit c || c == '_'
      let n := exponentValue ((rest.takeWhile isPart).filter (· != '_'))
      some (if negative then -(n : Int) else n, rest.dropWhile isPart)
    else none

/-- The parts of a numeral without sign, if all of the text belongs to it. A hexadecimal numeral needs its exponent. -/
def parts? (hex : Bool) (cs : List Char) : Option Parts :=
  let (whole, fraction, rest) := mantissa (if hex then 16 else 10) cs
  if whole.isEmpty && fraction.isEmpty then none
  else
    let parts : Parts := ⟨value (if hex then 16 else 10) (whole ++ fraction), fraction.length, 0⟩
    match rest with
    | [] => if hex then none else some parts
    | c :: rest =>
      if c.toLower == (if hex then 'p' else 'e') then
        match exponent? rest with
        | some (e, []) => some { parts with exponent := e }
        | _ => none
      else none

/-- The label nearest to `n * 10 ^ e`. Exponents far outside the range of labels are cut first. -/
def ofDecimal (negative : Bool) (n : Nat) (e : Int) : Label :=
  if n = 0 then Label.ofMagnitude negative 0
  else if 400 < e then Label.ofMagnitude negative Label.infiniteMagnitude
  else if e + (n.log2 : Int) < -1200 then Label.ofMagnitude negative 0
  else Label.ofRatio negative (n * Nat.pow 10 e.toNat) (Nat.pow 10 (-e).toNat)

/-- The label nearest to `n * 2 ^ e`. -/
def ofBinary (negative : Bool) (n : Nat) (e : Int) : Label :=
  if n = 0 then Label.ofMagnitude negative 0
  else if 1100 < e then Label.ofMagnitude negative Label.infiniteMagnitude
  else if e + (n.log2 : Int) < -1200 then Label.ofMagnitude negative 0
  else Label.ofDyadic negative n e

/-- The label of a numeral with its parts. -/
def Parts.label (p : Parts) (hex negative : Bool) : Label :=
  if hex then ofBinary negative p.digits (p.exponent - 4 * p.fraction)
  else ofDecimal negative p.digits (p.exponent - p.fraction)

/-- The label of a decimal numeral without underscores, none if it lies beyond the finite labels. -/
def decimal? (cs : List Char) : Option Label :=
  let (negative, rest) := sign cs
  match parts? false rest with
  | some p =>
    let v := p.label false negative
    if v.isInfinite then none else some v
  | none => none

/-- The label of a text: a decimal or hexadecimal numeral, an infinity or a NaN, in letters of either case. None if the text is
no numeral or its number lies beyond the finite labels. -/
def label? (cs : List Char) : Option Label :=
  let (negative, rest) := sign cs
  let name := rest.map Char.toLower
  if name == "inf".toList || name == "infinity".toList then some (if negative then Label.negInf else Label.posInf)
  else if cs.map Char.toLower == "nan".toList then some Label.nan
  else
    let hex := (name.take 2 == ['0', 'x']) && 2 < name.length
    match parts? hex (if hex then rest.drop 2 else rest) with
    | some p =>
      let v := p.label hex negative
      if v.isInfinite || (cs.contains '_' && !underscoresOk cs) then none else some v
    | none => none

end ModalGraph.Numeral
