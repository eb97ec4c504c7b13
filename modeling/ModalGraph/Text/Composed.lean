import ModalGraph.Text.CombiningClass
import ModalGraph.Text.Composition
import ModalGraph.Text.HiddenMarks

/-!
# Composed text

One text can be spelled in several ways that mean the same: a letter with an accent as one character or as two, and marks that do
not touch each other in either order. `composed` chooses one spelling: every character is taken apart, the marks after each
character are put in the order of their classes, and what makes one character together is written as one. Before that, long runs of
marks are broken by a joiner, so that a text can be put in order piece by piece.
-/

namespace ModalGraph.Text

/-! ## Syllables of Hangul

A syllable has a number that is computed from the numbers of its two or three letters. -/

namespace Hangul

def firstSyllable : Nat := 0xAC00
def firstLead : Nat := 0x1100
def firstVowel : Nat := 0x1161
/-- The place before the first closing letter: a syllable without one has the closing letter zero. -/
def beforeTails : Nat := 0x11A7
def leads : Nat := 19
def vowels : Nat := 21
def tails : Nat := 28

/-- The two parts of a syllable: its open syllable and its closing letter, or the two letters of an open one. -/
def parts? (n : Nat) : Option (List Nat) :=
  if firstSyllable ≤ n && n < firstSyllable + leads * vowels * tails then
    let i := n - firstSyllable
    if i % tails = 0 then some [firstLead + i / tails / vowels, firstVowel + i / tails % vowels]
    else some [n - i % tails, beforeTails + i % tails]
  else none

/-- The syllable of two parts. -/
def join? (a b : Nat) : Option Nat :=
  if firstLead ≤ a && a < firstLead + leads && firstVowel ≤ b && b < firstVowel + vowels then
    some (firstSyllable + ((a - firstLead) * vowels + (b - firstVowel)) * tails)
  else if firstSyllable ≤ a && a < firstSyllable + leads * vowels * tails && (a - firstSyllable) % tails == 0 &&
      beforeTails < b && b < beforeTails + tails then
    some (a + (b - beforeTails))
  else none

end Hangul

/-! ## Taking apart -/

/-- The character that always stands for another one. -/
def replacement? (n : Nat) : Option Nat :=
  replaced.findSome? fun (first, targets) => if first ≤ n then targets[n - first]? else none

/-- The pair that a composed character is made of. -/
def compositionOf? (n : Nat) : Option (List Nat) :=
  compositions.findSome? fun (second, pairs) => (pairs.find? fun p => p.2 == n).map fun p => [p.1, second]

/-- The equivalent of a character, one step of it. -/
def equivalent? (n : Nat) : Option (List Nat) :=
  if n < 0xC0 then none
  else
    match Hangul.parts? n, replacement? n, dissolved.lookup n with
    | some ps, _, _ => some ps
    | none, some m, _ => some [m]
    | none, none, some (a, b) => some [a, b]
    | none, none, none => compositionOf? n

/-- A character taken apart in at most so many steps. -/
def takeApart : Nat → Nat → List Nat
  | 0, n => [n]
  | steps + 1, n =>
    match equivalent? n with
    | none => [n]
    | some parts => parts.flatMap (takeApart steps)

/-- The steps after which every character is taken apart. -/
def mostSteps : Nat := 4

/-! ## Runs of marks -/

/-- Whether a character can belong to the one before it. -/
def isMark (n : Nat) : Bool :=
  0 < combiningClass n || (compositions.lookup n).isSome || (Hangul.firstVowel ≤ n && n < Hangul.firstVowel + Hangul.vowels) ||
    (Hangul.beforeTails < n && n < Hangul.beforeTails + Hangul.tails)

/-- How many marks a character begins with, and how many it ends with. -/
def marks (n : Nat) : Nat × Nat :=
  if n < 0x80 then (0, 0)
  else
    match hiddenMarks.find? fun (lo, hi, _, _) => lo ≤ n && n ≤ hi with
    | some (_, _, first, last) => (first, last)
    | none =>
      let parts := takeApart mostSteps n
      ((parts.takeWhile isMark).length, (parts.reverse.takeWhile isMark).length)

/-- The longest run of marks. -/
def longestRun : Nat := 30

/-- The character that breaks a run of marks. -/
def joiner : Nat := 0x34F

/-- Characters after a run of `count` marks, with every run that would be too long broken before the mark that is too much. -/
def broken (count : Nat) : List Nat → List Nat
  | [] => []
  | n :: ns =>
    let (first, last) := marks n
    if longestRun < count + first then joiner :: n :: broken first ns
    else n :: broken (if first = 0 then last else count + first) ns

/-! ## Order of marks -/

/-- A character with its class before a list: a mark is put behind the marks of lower classes that follow. -/
def place (x : Nat × Nat) : List (Nat × Nat) → List (Nat × Nat)
  | [] => [x]
  | y :: ys => if 0 < y.2 && y.2 < x.2 then y :: place x ys else x :: y :: ys

/-- Characters with their classes, the marks after each character in the order of their classes. -/
def ordered (ns : List Nat) : List (Nat × Nat) :=
  ns.foldr (fun n rest => place (n, combiningClass n) rest) []

/-! ## Putting together -/

/-- The character that two make together. -/
def composition? (a b : Nat) : Option Nat :=
  match Hangul.join? a b with
  | some n => some n
  | none => do (← compositions.lookup b).lookup a

/-- The characters from a base on. What follows joins the base unless a mark of its own class or a higher one stands between
them; the marks that stay stand in reverse, and `last` is the class of the last one. -/
def composeFrom (base : Nat) (marks : List Nat) (last : Nat) : List (Nat × Nat) → List Nat
  | [] => base :: marks.reverse
  | (n, k) :: rest =>
    match if marks.isEmpty || last < k then composition? base n else none with
    | some whole => composeFrom whole marks last rest
    | none =>
      if k = 0 then base :: (marks.reverse ++ composeFrom n [] 0 rest)
      else composeFrom base (n :: marks) k rest

/-- All characters that make one together put together; marks before the first base stay as they are. -/
def compose : List (Nat × Nat) → List Nat
  | [] => []
  | (n, k) :: rest => if k = 0 then composeFrom n [] 0 rest else n :: compose rest

/-- The composed spelling of a text. Characters below the first mark stand for themselves. -/
def composed (s : String) : String :=
  if s.toList.all fun c => c.toNat < 0x300 then s
  else
    let parts := (broken 0 (s.toList.map Char.toNat)).flatMap (takeApart mostSteps)
    String.ofList ((compose (ordered parts)).map Char.ofNat)

end ModalGraph.Text
