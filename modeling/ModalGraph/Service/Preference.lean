import ModalGraph.Label.Numeral
import ModalGraph.Text.Blank

/-!
# Preferences of callers

A caller may list the media types that it accepts, each with a weight and with other parameters. `Preference.ofText` reads such a
list, the preferred types first. The page of counters is always text, but a caller can choose how unusual names are escaped in it:
`Preference.escaping` finds the choice.
-/

namespace ModalGraph

/-- A media type that a caller accepts. A star stands for any type. -/
structure Preference where
  kind : String
  subkind : String
  weight : Label
  parameters : List (String × String)

namespace Preference

/-- The parts of a text before and after the first occurrence of a character. Without one, the second part is empty. -/
def cut (c : Char) (s : String) : String × String :=
  let cs := s.toList
  (String.ofList (cs.takeWhile (· != c)), String.ofList ((cs.dropWhile (· != c)).drop 1))

/-- The parts of a text that lie between occurrences of a character; an empty part at the end does not count. -/
def parts (c : Char) (s : String) : List String :=
  let ps := s.splitOn c.toString
  if ps.getLast? == some "" then ps.dropLast else ps

/-- A preference with one more parameter. What is no parameter does not count, and of two with one name the second does. -/
def addParameter (p : Preference) (text : String) : Preference :=
  let (name, rest) := cut '=' text
  let (value, more) := cut '=' rest
  let name := Text.trimString name
  if rest.isEmpty || !more.isEmpty then p
  else if name == "q" then { p with weight := ((Numeral.label? value.toList).getD Label.zero).toSingle }
  else { p with parameters := (name, Text.trimString value) :: p.parameters }

/-- The preference that an element of a list spells. -/
def ofElement? (element : String) : Option Preference :=
  let (range, parameters) := cut ';' (Text.trimString element)
  let (kind, rest) := cut '/' range
  let (subkind, more) := cut '/' rest
  let kind := Text.trimString kind
  let start : Option Preference :=
    if rest.isEmpty then if kind == "*" then some ⟨kind, "*", Label.one, []⟩ else none
    else if more.isEmpty then some ⟨kind, Text.trimString subkind, Label.one, []⟩
    else none
  start.map fun p => (parts ';' parameters).foldl addParameter p

/-- Whether a preference goes before another: it weighs more, or it is more definite. -/
def goesBefore (a b : Preference) : Bool :=
  b.weight.less a.weight || (a.kind != "*" && b.kind == "*") || (a.subkind != "*" && b.subkind == "*")

/-- The preferences from the last to the first, with one more: it goes as far to the front as it can. -/
def insert (p : Preference) : List Preference → List Preference
  | [] => [p]
  | q :: qs => if goesBefore p q then q :: insert p qs else p :: q :: qs

/-- The preferences that a list spells, the first one first. -/
def ofText (accept : String) : List Preference :=
  (((parts ',' accept).filterMap ofElement?).foldl (fun ps p => insert p ps) []).reverse

/-- The value of a parameter, empty if it is missing. -/
def parameter (p : Preference) (name : String) : String :=
  (p.parameters.lookup name).getD ""

/-- Whether a preference is one for the page of counters as text. -/
def isPage (p : Preference) : Bool :=
  p.kind == "text" && p.subkind == "plain" && ["", "0.0.4"].contains (p.parameter "version")

/-- The known ways to escape names. -/
def escapings : List String := ["allow-utf-8", "underscores", "dots", "values"]

/-- The way to escape names that some preferences choose: the last one up to the first that is for the page itself. -/
def escapingFrom (chosen : String) : List Preference → String
  | [] => chosen
  | p :: ps =>
    let own := p.parameter "escaping"
    let chosen := if escapings.contains own then own else chosen
    if p.isPage then chosen else escapingFrom chosen ps

/-- The way to escape names that a list of acceptable media types chooses. -/
def escaping (accept : String) : String :=
  escapingFrom "values" (ofText accept)

end Preference

end ModalGraph
