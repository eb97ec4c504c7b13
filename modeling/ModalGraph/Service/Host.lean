import ModalGraph.Label.Numeral
import ModalGraph.Text.Bytes

/-!
# Hosts

A host is given by its number or by its name. A number has four bytes, written in decimal with points between them, or eight groups
of hexadecimal digits with colons between them, of which one run of zeros may be left out. A name consists of labels with points
between them. What is neither cannot be a host.
-/

namespace ModalGraph.Host

/-! ## Numbers -/

/-- A byte in decimal; only zero begins with a zero. -/
def byte? (s : String) : Option Nat :=
  let cs := s.toList
  let n := Numeral.value 10 cs
  if cs.isEmpty || !cs.all Numeral.isDigit || (cs.head? == some '0' && 1 < cs.length) || 255 < n then none else some n

/-- The bytes of a number that is written in decimal. -/
def fourBytes? (s : String) : Option (List Nat) :=
  let fields := s.splitOn "."
  if fields.length = 4 then fields.mapM byte? else none

def isHexDigit (c : Char) : Bool :=
  Numeral.isDigit c || ('a' ≤ c && c ≤ 'f') || ('A' ≤ c && c ≤ 'F')

/-- Whether a text is a group of hexadecimal digits. -/
def isGroup (s : String) : Bool :=
  0 < s.length && s.length ≤ 4 && s.toList.all isHexDigit

/-- How many groups a text of groups has, none if one of them is malformed. Four bytes in decimal stand for the last two groups
of a number, if `mayEndInBytes` holds. -/
def groupCount? (mayEndInBytes : Bool) (s : String) : Option Nat :=
  if s.isEmpty then some 0
  else
    let groups := s.splitOn ":"
    let last := groups.getLastD ""
    if groups.all isGroup then some groups.length
    else if mayEndInBytes && groups.dropLast.all isGroup && (fourBytes? last).isSome then some (groups.length + 1)
    else none

/-- Whether a text is a number in groups. -/
def isGroups (s : String) : Bool :=
  match s.splitOn "::" with
  | [whole] => groupCount? true whole == some 8
  | [left, right] =>
    match groupCount? false left, groupCount? true right with
    | some l, some r => decide (l + r < 8)
    | _, _ => false
  | _ => false

/-- Whether a text is a number in groups, perhaps with a zone after a percent sign. -/
def isZonedGroups (s : String) : Bool :=
  let cs := s.toList
  let number := cs.takeWhile (· != '%')
  match cs.dropWhile (· != '%') with
  | [] => isGroups s
  | _ :: zone => !zone.isEmpty && isGroups (String.ofList number)

/-- The first sign of a text that is none of a name; it tells which kind of number the text should be. -/
def firstSign? (s : String) : Option Char :=
  s.toList.find? fun c => c == '.' || c == ':' || c == '%'

/-- Whether a text is the number of a host that is written in groups. -/
def isGroupNumber (s : String) : Bool :=
  firstSign? s == some ':' && isZonedGroups s

/-- Whether a text is the number of a host. -/
def isNumber (s : String) : Bool :=
  isGroupNumber s || (firstSign? s == some '.' && (fourBytes? s).isSome)

/-! ## Names -/

/-- A character of a label other than a digit. -/
def isNameLetter (c : Char) : Bool :=
  ('a' ≤ c && c ≤ 'z') || ('A' ≤ c && c ≤ 'Z') || c == '_' || c == '-'

/-- Whether a text is one of the labels of a name: between one and 63 characters, with no dash at either end. -/
def isLabel (s : String) : Bool :=
  let cs := s.toList
  0 < cs.length && cs.length ≤ 63 && cs.all (fun c => isNameLetter c || Numeral.isDigit c) &&
    cs.head? != some '-' && cs.getLast? != some '-'

/-- The longest name, without a point at its end. -/
def maxName : Nat := 253

/-- Whether a text is the name of a host. It may end in a point; not all of it may be digits. -/
def isName (s : String) : Bool :=
  let cs := s.toList
  let body := if cs.getLast? == some '.' then cs.dropLast else cs
  s == "." || (body.length ≤ maxName && (String.ofList body |>.splitOn ".").all isLabel && cs.any isNameLetter)

/-- Whether the number of a host may be one of this machine. Of the networks that it is on, only that of its own is known; numbers
for groups of machines and for none count as well. -/
def mayBeHere (s : String) : Bool :=
  match fourBytes? s with
  | some (a :: _) => a == 0 || a == 127 || 224 ≤ a
  | _ => true

end ModalGraph.Host
