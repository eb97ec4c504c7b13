import ModalGraph.Text.Quoted

/-!
# JSON text

Values of JSON, with numbers kept as they are spelled. `Json.compact` and `Json.pretty` write a value; text inside is escaped so
that it may stand in a web page. `Json.parse?` reads a text that is one value with blanks around it. Values nest at most ten
thousand deep.
-/

namespace ModalGraph

/-- A JSON value. A number is its spelling; members stay in order. -/
inductive Json where
  | null
  | bool (b : Bool)
  | num (spelling : String)
  | str (s : String)
  | arr (items : List Json)
  | obj (members : List (String × Json))
deriving Repr, Inhabited

namespace Json

/-- The number of an integer. -/
def int (n : Int) : Json :=
  .num (toString n)

/-! ## Writing -/

/-- A character inside a string. Signs that mean something in a web page are written by their code. -/
def escapeChar (c : Char) : List Char :=
  if c == '"' then ['\\', '"']
  else if c == '\\' then ['\\', '\\']
  else if c.toNat == 8 then ['\\', 'b']
  else if c.toNat == 12 then ['\\', 'f']
  else if c.toNat == 10 then ['\\', 'n']
  else if c.toNat == 13 then ['\\', 'r']
  else if c.toNat == 9 then ['\\', 't']
  else if c.toNat < 0x20 || c == '<' || c == '>' || c == '&' || c.toNat == 0x2028 || c.toNat == 0x2029 then
    '\\' :: 'u' :: Text.hexDigits 4 c.toNat
  else [c]

/-- A string between quotes. -/
def writeString (s : String) : String :=
  String.ofList ('"' :: (s.toList.flatMap escapeChar ++ ['"']))

mutual

/-- A value without any blanks. -/
def compact : Json → String
  | .null => "null"
  | .bool b => if b then "true" else "false"
  | .num spelling => spelling
  | .str s => writeString s
  | .arr items => "[" ++ ",".intercalate (compactItems items) ++ "]"
  | .obj members => "\x7b" ++ ",".intercalate (compactMembers members) ++ "\x7d"

/-- Values without any blanks. -/
def compactItems : List Json → List String
  | [] => []
  | j :: js => j.compact :: compactItems js

/-- Members without any blanks. -/
def compactMembers : List (String × Json) → List String
  | [] => []
  | (k, j) :: ms => (writeString k ++ ":" ++ j.compact) :: compactMembers ms

end

/-- The start of a new line at a depth: two blanks for each step. -/
def newLine (depth : Nat) : String :=
  String.ofList ('\n' :: List.replicate (2 * depth) ' ')

mutual

/-- A value with every item and member on a line of its own. -/
def prettyAt (depth : Nat) : Json → String
  | .arr [] => "[]"
  | .arr items =>
    "[" ++ newLine (depth + 1) ++ ("," ++ newLine (depth + 1)).intercalate (prettyItems (depth + 1) items) ++
      newLine depth ++ "]"
  | .obj [] => "\x7b\x7d"
  | .obj members =>
    "\x7b" ++ newLine (depth + 1) ++ ("," ++ newLine (depth + 1)).intercalate (prettyMembers (depth + 1) members) ++
      newLine depth ++ "\x7d"
  | j => j.compact

/-- Values, each at a depth. -/
def prettyItems (depth : Nat) : List Json → List String
  | [] => []
  | j :: js => j.prettyAt depth :: prettyItems depth js

/-- Members, each at a depth. -/
def prettyMembers (depth : Nat) : List (String × Json) → List String
  | [] => []
  | (k, j) :: ms => (writeString k ++ ": " ++ j.prettyAt depth) :: prettyMembers depth ms

end

/-- A value with every item and member on a line of its own, indented by two blanks. -/
def pretty (j : Json) : String :=
  j.prettyAt 0

/-! ## Reading -/

/-- Blanks between values. -/
def isBlank (c : Char) : Bool :=
  c == ' ' || c == '\t' || c == '\n' || c == '\r'

/-- The text after the blanks at its front. -/
def skipBlanks (cs : List Char) : List Char :=
  cs.dropWhile isBlank

def isDigit (c : Char) : Bool :=
  '0' ≤ c && c ≤ '9'

/-- The value of a hexadecimal digit. -/
def hex? (c : Char) : Option Nat :=
  if isDigit c then some (c.toNat - '0'.toNat)
  else if 'a' ≤ c && c ≤ 'f' then some (c.toNat - 'a'.toNat + 10)
  else if 'A' ≤ c && c ≤ 'F' then some (c.toNat - 'A'.toNat + 10)
  else none

/-- The number of four hexadecimal digits, and the text after them. -/
def hex4? : List Char → Option (Nat × List Char)
  | a :: b :: c :: d :: rest => do
    let a ← hex? a
    let b ← hex? b
    let c ← hex? c
    let d ← hex? d
    return (((a * 16 + b) * 16 + c) * 16 + d, rest)
  | _ => none

/-- The first half of a pair of units that stand for one character. -/
def isHighUnit (n : Nat) : Bool := 0xD800 ≤ n && n < 0xDC00

/-- The second half of such a pair. -/
def isLowUnit (n : Nat) : Bool := 0xDC00 ≤ n && n < 0xE000

/-- The character that a code escape stands for, given its number and the text after it: a pair of halves is one character,
and a half alone is the replacement character. -/
def unitChar (n : Nat) (rest : List Char) : Char × List Char :=
  if isHighUnit n then
    match rest with
    | '\\' :: 'u' :: more =>
      match hex4? more with
      | some (m, after) =>
        if isLowUnit m then (Char.ofNat ((n - 0xD800) * 0x400 + (m - 0xDC00) + 0x10000), after)
        else (Char.ofNat 0xFFFD, rest)
      | none => (Char.ofNat 0xFFFD, rest)
    | _ => (Char.ofNat 0xFFFD, rest)
  else if isLowUnit n then (Char.ofNat 0xFFFD, rest)
  else (Char.ofNat n, rest)

/-- The character of a one-letter escape. -/
def shortEscape? (c : Char) : Option Char :=
  if c == '"' then some '"'
  else if c == '\\' then some '\\'
  else if c == '/' then some '/'
  else if c == 'b' then some (Char.ofNat 8)
  else if c == 'f' then some (Char.ofNat 12)
  else if c == 'n' then some '\n'
  else if c == 'r' then some '\r'
  else if c == 't' then some '\t'
  else none

/-- The rest of a string up to its closing quote; the characters read so far stand in reverse. `fuel` is a text
longer than the rest: each step drops a character of it, so nothing has to be counted. -/
def stringRest (fuel : List Char) (acc : List Char) (cs : List Char) : Option (String × List Char) :=
  match fuel with
  | [] => none
  | _ :: fuel =>
    match cs with
    | [] => none
    | c :: rest =>
      if c == '"' then some (String.ofList acc.reverse, rest)
      else if c.toNat < 0x20 then none
      else if c == '\\' then
        match rest with
        | 'u' :: more =>
          match hex4? more with
          | some (n, after) =>
            let (u, after) := unitChar n after
            stringRest fuel (u :: acc) after
          | none => none
        | e :: more =>
          match shortEscape? e with
          | some u => stringRest fuel (u :: acc) more
          | none => none
        | [] => none
      else stringRest fuel (c :: acc) rest

/-- The digits at the front of a text, at least one. -/
def digits? (cs : List Char) : Option (List Char × List Char) :=
  if (cs.takeWhile isDigit).isEmpty then none else some (cs.takeWhile isDigit, cs.dropWhile isDigit)

/-- The whole part of a number: a zero alone, or digits that do not start with one. -/
def whole? : List Char → Option (List Char × List Char)
  | '0' :: rest => some (['0'], rest)
  | cs => digits? cs

/-- The fraction of a number, if there is one. -/
def fraction? : List Char → Option (List Char × List Char)
  | '.' :: rest => (digits? rest).map fun (ds, rest) => ('.' :: ds, rest)
  | cs => some ([], cs)

/-- The exponent of a number, if there is one. -/
def exponent? (cs : List Char) : Option (List Char × List Char) :=
  match cs with
  | e :: rest =>
    if e == 'e' || e == 'E' then
      match rest with
      | s :: more =>
        if s == '+' || s == '-' then (digits? more).map fun (ds, rest) => (e :: s :: ds, rest)
        else (digits? rest).map fun (ds, rest) => (e :: ds, rest)
      | [] => none
    else some ([], cs)
  | [] => some ([], cs)

/-- A number at the front of a text, by its spelling. -/
def number? (cs : List Char) : Option (String × List Char) := do
  let (sign, cs) := match cs with
    | '-' :: rest => (['-'], rest)
    | cs => ([], cs)
  let (whole, cs) ← whole? cs
  let (fraction, cs) ← fraction? cs
  let (exponent, cs) ← exponent? cs
  return (String.ofList (sign ++ whole ++ fraction ++ exponent), cs)

/-- The text after a word it must start with. -/
def word? : List Char → List Char → Option (List Char)
  | [], cs => some cs
  | w :: ws, c :: cs => if w == c then word? ws cs else none
  | _ :: _, [] => none

/-- How deep values may nest. -/
def maxDepth : Nat := 10000

mutual

/-- The value at the front of a text, after blanks. `depth` more arrays and objects may be opened. -/
def value? (fuel depth : Nat) (cs : List Char) : Option (Json × List Char) :=
  match fuel with
  | 0 => none
  | fuel + 1 =>
    match skipBlanks cs with
    | '\x7b' :: rest =>
      if depth = 0 then none
      else
        match skipBlanks rest with
        | '\x7d' :: after => some (.obj [], after)
        | rest => (members? fuel (depth - 1) rest).map fun (ms, rest) => (.obj ms, rest)
    | '[' :: rest =>
      if depth = 0 then none
      else
        match skipBlanks rest with
        | ']' :: after => some (.arr [], after)
        | rest => (items? fuel (depth - 1) rest).map fun (js, rest) => (.arr js, rest)
    | '"' :: rest => (stringRest ('"' :: rest) [] rest).map fun (s, rest) => (.str s, rest)
    | 't' :: rest => (word? ['r', 'u', 'e'] rest).map fun rest => (.bool true, rest)
    | 'f' :: rest => (word? ['a', 'l', 's', 'e'] rest).map fun rest => (.bool false, rest)
    | 'n' :: rest => (word? ['u', 'l', 'l'] rest).map fun rest => (.null, rest)
    | rest => (number? rest).map fun (s, rest) => (.num s, rest)

/-- One or more values separated by commas, up to the closing bracket. -/
def items? (fuel depth : Nat) (cs : List Char) : Option (List Json × List Char) :=
  match fuel with
  | 0 => none
  | fuel + 1 => do
    let (j, rest) ← value? fuel depth cs
    match skipBlanks rest with
    | ',' :: rest =>
      let (js, rest) ← items? fuel depth rest
      return (j :: js, rest)
    | ']' :: rest => return ([j], rest)
    | _ => none

/-- One or more members separated by commas, up to the closing brace. -/
def members? (fuel depth : Nat) (cs : List Char) : Option (List (String × Json) × List Char) :=
  match fuel with
  | 0 => none
  | fuel + 1 => do
    match skipBlanks cs with
    | '"' :: rest =>
      let (k, rest) ← stringRest ('"' :: rest) [] rest
      match skipBlanks rest with
      | ':' :: rest =>
        let (j, rest) ← value? fuel depth rest
        match skipBlanks rest with
        | ',' :: rest =>
          let (ms, rest) ← members? fuel depth rest
          return ((k, j) :: ms, rest)
        | '\x7d' :: rest => return ([(k, j)], rest)
        | _ => none
      | _ => none
    | _ => none

end

/-- The value of a text that holds one value and blanks around it. -/
def parse? (text : String) : Option Json :=
  let cs := text.toList
  match value? (2 * cs.length + 2) maxDepth cs with
  | some (j, rest) => if (skipBlanks rest).isEmpty then some j else none
  | none => none

/-! ## Looking inside -/

/-- The character that stands for all letters that differ only in case, as far as it is an ASCII capital. -/
def foldChar (c : Char) : Char :=
  if c.toNat == 0x17F then 'S' else if c.toNat == 0x212A then 'K' else c.toUpper

/-- Whether two member names differ only in case. -/
def sameName (a b : String) : Bool :=
  a.toList.map foldChar == b.toList.map foldChar

/-- The values of the members whose name is `name` up to case, in order. -/
def membersNamed (name : String) (members : List (String × Json)) : List Json :=
  (members.filter fun m => sameName m.1 name).map Prod.snd

end Json

end ModalGraph
