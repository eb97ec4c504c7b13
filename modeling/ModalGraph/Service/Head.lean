import ModalGraph.Service.Target

/-!
# Heads of requests

A request opens with a head: a line with a method, a target and the version of the protocol, then lines with headers, then an empty
line. A header that is too long for its line goes on in the next one, which then begins with a blank. `Head.parse?` reads a head;
what comes after it is not looked at. A head is refused as a whole if a line of it is malformed, if it names two hosts, or if it
leaves open where the body ends.
-/

namespace ModalGraph

/-- Whether two header names are the same; case does not matter. -/
def sameHeader (a b : String) : Bool :=
  a.toList.map Char.toLower == b.toList.map Char.toLower

/-- The version of the protocol. -/
structure Version where
  major : Nat
  minor : Nat
deriving DecidableEq, Repr

/-- The head of a request. -/
structure Head where
  method : String
  target : Target
  version : Version
  headers : List (String × String)

namespace Head

/-! ## Lines -/

/-- The lines of a text. A carriage return before the end of a line belongs to the end. -/
def lines (text : String) : List (List Char) :=
  (text.splitOn "\n").map fun l =>
    let cs := l.toList
    if cs.getLast? == some '\r' then cs.dropLast else cs

/-- The space and the tab. -/
def isGap (c : Char) : Bool :=
  c == ' ' || c == '\t'

/-- A text without the spaces and tabs at its two ends. -/
def trimGaps (cs : List Char) : List Char :=
  ((cs.dropWhile isGap).reverse.dropWhile isGap).reverse

/-- The part of a list before the first occurrence of a character, and the part after it. -/
def cut? (c : Char) (cs : List Char) : Option (List Char × List Char) :=
  match cs.dropWhile (· != c) with
  | [] => none
  | _ :: rest => some (cs.takeWhile (· != c), rest)

/-- The version that a text spells. -/
def version? (cs : List Char) : Option Version :=
  match cs with
  | ['H', 'T', 'T', 'P', '/', a, '.', b] =>
    if Numeral.isDigit a && Numeral.isDigit b then some ⟨Numeral.value 10 [a], Numeral.value 10 [b]⟩ else none
  | _ => none

/-! ## Headers -/

/-- The headers up to an empty line, each as one text, and before them what goes on from an earlier line. A header has its colon in
its first line. -/
def unfolded? : List (List Char) → Option (List Char × List (List Char))
  | [] => none
  | line :: rest =>
    if line.isEmpty then some ([], [])
    else do
      let (more, headers) ← unfolded? rest
      if (line.head?.map isGap).getD false then some (' ' :: trimGaps line ++ more, headers)
      else if line.contains ':' then some ([], (trimGaps line ++ more) :: headers)
      else none

/-- A character of the value of a header. -/
def isValueChar (c : Char) : Bool :=
  c == '\t' || (0x20 ≤ c.toNat && c.toNat != 0x7F)

/-- The name and the value of a header. Spaces in a name are let through. -/
def header? (cs : List Char) : Option (String × String) := do
  let (name, value) ← cut? ':' cs
  let word := String.ofList (name.map fun c => if c == ' ' then '-' else c)
  if isWord word && value.all isValueChar then some (String.ofList name, String.ofList (value.dropWhile isGap)) else none

/-- The headers that some lines hold. -/
def headers? (ls : List (List Char)) : Option (List (String × String)) := do
  let (before, headers) ← unfolded? ls
  if before.isEmpty then headers.mapM header? else none

/-- The values of a header. -/
def values (headers : List (String × String)) (name : String) : List String :=
  (headers.filter fun h => sameHeader h.1 name).map Prod.snd

/-! ## Bodies -/

/-- Whether the length of a body is given once, or always the same, as a number of 63 bits. -/
def lengthOk (headers : List (String × String)) : Bool :=
  match (values headers "Content-Length").map fun v => trimGaps v.toList with
  | [] => true
  | l :: ls =>
    ls.all (· == l) && !l.isEmpty && l.all Numeral.isDigit && decide (Numeral.value 10 l < Nat.pow 2 63)

/-- The parts of a list with commas between them. -/
def elements (value : String) : List String :=
  (value.splitOn ",").map fun part => String.ofList (trimGaps part.toList)

/-- Whether a body that comes in chunks is well announced: what tells where it ends may not come after it. -/
def chunkedOk (headers : List (String × String)) : Bool :=
  !(((values headers "Trailer").flatMap elements).any fun name =>
    sameHeader name "Transfer-Encoding" || sameHeader name "Trailer" || sameHeader name "Content-Length")

/-- Whether the encoding of a body is one that is known. Old versions of the protocol have none. -/
def encodingOk (v : Version) (headers : List (String × String)) : Bool :=
  let hasEncodings := v = ⟨0, 0⟩ || 1 < v.major || (v.major = 1 && 1 ≤ v.minor)
  match values headers "Transfer-Encoding" with
  | [] => true
  | [e] => !hasEncodings || (sameHeader e "chunked" && chunkedOk headers)
  | _ => !hasEncodings

/-! ## Reading -/

/-- The head that a text begins with. -/
def parse? (text : String) : Option Head := do
  let first :: rest := lines text | none
  let (method, afterMethod) ← cut? ' ' first
  let (target, protocol) ← cut? ' ' afterMethod
  let version ← version? protocol
  let method := String.ofList method
  let target ← if isWord method then Target.parse? method (String.ofList target) else none
  let headers ← headers? rest
  if (values headers "Host").length ≤ 1 && lengthOk headers && encodingOk version headers then
    some ⟨method, target, version, headers⟩
  else none

/-- A head with one header set to a value. -/
def setHeader (h : Head) (name value : String) : Head :=
  { h with headers := (name, value) :: h.headers.filter fun x => !sameHeader x.1 name }

end Head

end ModalGraph
