import ModalGraph.Text.Blank
import ModalGraph.Text.Identifier

/-!
# Tokens of settings text

Settings are written as attributes and blocks. A token is a name, a number, a sign, the end of a line, or a part of a text. A
text stands between quotes, or on lines of its own up to a line that repeats its marker. It may hold expressions between `${` and
`}` and directives between `%{` and `}`, so reading switches back and forth; the ways of reading that are going on are kept in a
list of frames. A comment up to the end of a line counts as the end of the line. What is no token has no reading at all.
-/

namespace ModalGraph.SettingsText

/-- A token. A tilde at the start or the end of an expression in a text, or of a directive, asks to trim the blank space there. -/
inductive Token where
  | newline
  | name (s : String)
  | number (spelling : String)
  | sign (s : String)
  /-- The start of a text between quotes. -/
  | openQuote
  /-- The start of a text on lines of its own, and whether the indentation of its lines does not count. -/
  | openLines (flush : Bool)
  /-- Characters of a text, escapes resolved. -/
  | literal (s : String)
  /-- The end of a text. -/
  | closeText
  /-- The start of an expression inside a text. -/
  | openHole (trim : Bool)
  /-- The start of a directive inside a text. -/
  | openDirective (trim : Bool)
  /-- The end of an expression or a directive inside a text. -/
  | closeHole (trim : Bool)
deriving DecidableEq, Repr, Inhabited

/-- A way of reading that is going on. -/
inductive Frame where
  /-- An expression or a directive inside a text, with the number of braces open in it. -/
  | hole (braces : Nat)
  /-- A text between quotes. -/
  | quote
  /-- A text on lines of its own: the marker that ends it, and whether a line has just begun. -/
  | lines (marker : List Char) (fresh : Bool)
deriving DecidableEq, Repr

def isDigit (c : Char) : Bool :=
  '0' ≤ c && c ≤ '9'

/-- A character that may start a name. -/
def isNameStart (c : Char) : Bool :=
  Text.startsIdentifier c || c == '_'

/-- A character that may go on in a name. -/
def isNamePart (c : Char) : Bool :=
  Text.continuesIdentifier c || c == '-'

/-! ## Numbers -/

/-- The characters at the front that may belong to a number after its first digit, and the rest. An exponent mark belongs to it
only with a digit behind it. -/
def numberPart : List Char → List Char × List Char
  | [] => ([], [])
  | c :: rest =>
    if isDigit c || c == '.' then
      let (more, after) := numberPart rest
      (c :: more, after)
    else if c == 'e' || c == 'E' then
      match rest with
      | d :: rest =>
        if isDigit d then
          let (more, after) := numberPart rest
          (c :: d :: more, after)
        else
          match rest with
          | x :: rest =>
            if (d == '+' || d == '-') && isDigit x then
              let (more, after) := numberPart rest
              (c :: d :: x :: more, after)
            else ([], c :: d :: x :: rest)
          | [] => ([], [c, d])
      | [] => ([], [c])
    else ([], c :: rest)

/-- The spelling of a number that starts with a digit, and the rest. Points at its end do not belong to it. -/
def number (c : Char) (rest : List Char) : String × List Char :=
  let (part, after) := numberPart rest
  let kept := (part.reverse.dropWhile (· == '.')).reverse
  (String.ofList (c :: kept), part.drop kept.length ++ after)

/-! ## Comments -/

/-- The text after a comment that ends with its line. -/
def afterLine (cs : List Char) : List Char :=
  cs.dropWhile (· != '\n')

/-- The text after a comment that ends with a star and a slash. -/
def afterBlock? : List Char → Option (List Char)
  | '*' :: '/' :: rest => some rest
  | _ :: rest => afterBlock? rest
  | [] => none

/-! ## Text between quotes -/

/-- The value of a hexadecimal digit. -/
def hexDigit? (c : Char) : Option Nat :=
  if isDigit c then some (c.toNat - '0'.toNat)
  else if 'a' ≤ c && c ≤ 'f' then some (c.toNat - 'a'.toNat + 10)
  else if 'A' ≤ c && c ≤ 'F' then some (c.toNat - 'A'.toNat + 10)
  else none

/-- The character whose number is written with `count` hexadecimal digits, and the rest. -/
def codeEscape? (count : Nat) (cs : List Char) : Option (Char × List Char) := do
  let ds ← (cs.take count).mapM hexDigit?
  let n := ds.foldl (fun n d => n * 16 + d) 0
  if ds.length = count && decide n.isValidChar then some (Char.ofNat n, cs.drop count) else none

/-- The character of an escape, given the characters after the backslash. -/
def escape? : List Char → Option (Char × List Char)
  | 'n' :: rest => some ('\n', rest)
  | 'r' :: rest => some ('\r', rest)
  | 't' :: rest => some ('\t', rest)
  | '"' :: rest => some ('"', rest)
  | '\\' :: rest => some ('\\', rest)
  | 'u' :: rest => codeEscape? 4 rest
  | 'U' :: rest => codeEscape? 8 rest
  | _ => none

/-- A character at which a run of plain characters between quotes ends. -/
def endsRun (c : Char) : Bool :=
  c == '"' || c == '$' || c == '%' || c == '\n' || c == '\r'

/-- The plain and the escaped characters of a text up to the next one that is neither, and the rest. The characters read so far
stand in reverse. -/
def quotedRun (fuel : Nat) (acc : List Char) (cs : List Char) : Option (String × List Char) :=
  match fuel, cs with
  | _, [] => some (String.ofList acc.reverse, [])
  | 0, _ => none
  | fuel + 1, '\\' :: rest =>
    match escape? rest with
    | some (c, rest) => quotedRun fuel (c :: acc) rest
    | none => none
  | fuel + 1, c :: rest =>
    if endsRun c then some (String.ofList acc.reverse, c :: rest) else quotedRun fuel (c :: acc) rest

/-- A mark that opens an expression or a directive, the frames after it, and the rest. -/
def opening? (frames : List Frame) (cs : List Char) : Option (Token × List Frame × List Char) :=
  match cs with
  | '$' :: '\x7b' :: '~' :: rest => some (.openHole true, .hole 0 :: frames, rest)
  | '$' :: '\x7b' :: rest => some (.openHole false, .hole 0 :: frames, rest)
  | '%' :: '\x7b' :: '~' :: rest => some (.openDirective true, .hole 0 :: frames, rest)
  | '%' :: '\x7b' :: rest => some (.openDirective false, .hole 0 :: frames, rest)
  | _ => none

/-- The next literal of a text between quotes. A doubled mark before a brace stands for a single one, and a mark without a brace
for itself; neither joins the characters around it. A text between quotes does not run over the end of a line. -/
def quotedLiteral? (cs : List Char) : Option (String × List Char) :=
  match cs with
  | '$' :: '$' :: '\x7b' :: '~' :: rest => some ("$\x7b~", rest)
  | '$' :: '$' :: '\x7b' :: rest => some ("$\x7b", rest)
  | '%' :: '%' :: '\x7b' :: '~' :: rest => some ("%\x7b~", rest)
  | '%' :: '%' :: '\x7b' :: rest => some ("%\x7b", rest)
  | '$' :: rest => some ("$", rest)
  | '%' :: rest => some ("%", rest)
  | '\n' :: _ => none
  | '\r' :: _ => none
  | cs => quotedRun cs.length [] cs

/-! ## Text on lines of its own -/

/-- The characters of a line up to an opening mark or through its end, doubled marks resolved, whether the line ended, and the
rest. A carriage return belongs only before the end of a line. -/
def lineLiteral? : List Char → Option (List Char × Bool × List Char)
  | [] => some ([], false, [])
  | '\n' :: rest => some (['\n'], true, rest)
  | '\r' :: '\n' :: rest => some (['\r', '\n'], true, rest)
  | '\r' :: _ => none
  | '$' :: '$' :: '\x7b' :: rest => (lineLiteral? rest).map fun (cs, ended, rest) => ('$' :: '\x7b' :: cs, ended, rest)
  | '%' :: '%' :: '\x7b' :: rest => (lineLiteral? rest).map fun (cs, ended, rest) => ('%' :: '\x7b' :: cs, ended, rest)
  | '$' :: '\x7b' :: rest => some ([], false, '$' :: '\x7b' :: rest)
  | '%' :: '\x7b' :: rest => some ([], false, '%' :: '\x7b' :: rest)
  | c :: rest => (lineLiteral? rest).map fun (cs, ended, rest) => (c :: cs, ended, rest)

/-- The characters without blank space at the two ends. -/
def stripped (cs : List Char) : List Char :=
  ((cs.dropWhile Text.isBlank).reverse.dropWhile Text.isBlank).reverse

/-- The start of a text on lines of its own, given the characters after the two signs: whether indentation does not count, the
marker, and the rest. The line ends with the marker. -/
def linesStart? (cs : List Char) : Option (Bool × List Char × List Char) :=
  let flush := cs.head? == some '-'
  let cs := if flush then cs.drop 1 else cs
  let marker := cs.takeWhile isNamePart
  if marker.head?.any isNameStart then
    match cs.dropWhile isNamePart with
    | '\n' :: rest => some (flush, marker, rest)
    | '\r' :: '\n' :: rest => some (flush, marker, rest)
    | _ => none
  else none

/-! ## Signs -/

/-- The signs of three, two and one characters, longer ones first. -/
def signs : List (List Char) :=
  [['.', '.', '.'], ['=', '='], ['!', '='], ['<', '='], ['>', '='], ['=', '>'], ['&', '&'], ['|', '|'], [':', ':'], ['\x7b'],
    ['\x7d'], ['['], [']'], ['('], [')'], ['.'], [','], [':'], ['='], ['?'], ['+'], ['-'], ['*'], ['/'], ['%'], ['!'], ['<'],
    ['>']]

/-- The longest sign at the front of a text, and the rest. -/
def sign? (cs : List Char) : Option (String × List Char) :=
  (signs.find? fun s => s.isPrefixOf cs).map fun s => (String.ofList s, cs.drop s.length)

/-- The frames after a sign: braces are counted inside an expression in a text. -/
def framesAfter (frames : List Frame) (s : String) : List Frame :=
  match frames with
  | .hole n :: more =>
    if s == "\x7b" then .hole (n + 1) :: more else if s == "\x7d" then .hole (n - 1) :: more else frames
  | frames => frames

/-! ## All tokens -/

/-- The next tokens, the frames after them, and the rest. -/
abbrev Step := List Token × List Frame × List Char

/-- The next token of an expression or of a body; none for blanks and comments. -/
def codeStep (frames : List Frame) (c : Char) (rest : List Char) : Option Step :=
  if c == ' ' || c == '\t' then some ([], frames, rest)
  else if c == '\n' then some ([.newline], frames, rest)
  else if c == '\r' && rest.head? == some '\n' then some ([], frames, rest)
  else if c == '#' then some ([], frames, afterLine rest)
  else if c == '/' && rest.head? == some '/' then some ([], frames, afterLine rest)
  else if c == '/' && rest.head? == some '*' then (afterBlock? (rest.drop 1)).map fun rest => ([], frames, rest)
  else if c == '"' then some ([.openQuote], .quote :: frames, rest)
  else if c == '<' && rest.head? == some '<' then
    (linesStart? (rest.drop 1)).map fun (flush, marker, rest) => ([.openLines flush], .lines marker true :: frames, rest)
  else if c == '\x7d' && frames.head? == some (.hole 0) then some ([.closeHole false], frames.drop 1, rest)
  else if c == '~' then
    if rest.head? == some '\x7d' && frames.head? == some (.hole 0) then some ([.closeHole true], frames.drop 1, rest.drop 1)
    else none
  else if isDigit c then
    let (spelling, rest) := number c rest
    some ([.number spelling], frames, rest)
  else if isNameStart c then
    some ([.name (String.ofList (c :: rest.takeWhile isNamePart))], frames, rest.dropWhile isNamePart)
  else (sign? (c :: rest)).map fun (s, rest) => ([.sign s], framesAfter frames s, rest)

/-- The next token of a text between quotes; `frames` are those around it. -/
def quoteStep (frames : List Frame) (cs : List Char) : Option Step :=
  match cs with
  | '"' :: rest => some ([.closeText], frames, rest)
  | cs =>
    match opening? (.quote :: frames) cs with
    | some (t, frames, rest) => some ([t], frames, rest)
    | none => (quotedLiteral? cs).map fun (s, rest) => ([.literal s], .quote :: frames, rest)

/-- The next token of a text on lines of its own; `frames` are those around it. A line that holds only the marker ends the text;
the end of that line counts. -/
def linesStep (marker : List Char) (fresh : Bool) (frames : List Frame) (cs : List Char) : Option Step :=
  match opening? (.lines marker false :: frames) cs with
  | some (t, frames, rest) => some ([t], frames, rest)
  | none =>
    (lineLiteral? cs).map fun (line, ended, rest) =>
      if ended && fresh && stripped line == marker then ([.closeText, .newline], frames, rest)
      else ([.literal (String.ofList line)], .lines marker ended :: frames, rest)

/-- The next tokens. -/
def step (frames : List Frame) (c : Char) (rest : List Char) : Option Step :=
  match frames with
  | .quote :: frames => quoteStep frames (c :: rest)
  | .lines marker fresh :: frames => linesStep marker fresh frames (c :: rest)
  | frames => codeStep frames c rest

/-- All tokens, if no text is left open; the ones so far stand in reverse. Every step reads at least one character, so as much
fuel as there are characters, and one more, suffices. -/
def tokensFrom (fuel : Nat) (frames : List Frame) (acc : List Token) (cs : List Char) : Option (List Token) :=
  match fuel, cs with
  | _, [] => if frames.isEmpty then some acc.reverse else none
  | 0, _ :: _ => none
  | fuel + 1, c :: rest =>
    match step frames c rest with
    | none => none
    | some (ts, frames, rest) => tokensFrom fuel frames (ts.reverse ++ acc) rest

/-- The tokens of a text. A byte order mark at its start does not count. -/
def tokens? (text : String) : Option (List Token) :=
  let cs := match text.toList with
    | '\uFEFF' :: cs => cs
    | cs => cs
  tokensFrom (cs.length + 1) [] [] cs

end ModalGraph.SettingsText
