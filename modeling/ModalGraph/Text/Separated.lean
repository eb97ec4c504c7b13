import ModalGraph.Text.Bytes

/-!
# Lists separated by commas

The fields of the first line that is not empty, with commas between them. A field may stand between double quotes; it may then hold
commas and line ends, and a quote inside it is written twice. A quote anywhere else is a fault, reported with its line and column.
-/

namespace ModalGraph.Text.Separated

/-- What can be wrong with a list. Lines and columns count from one, columns in bytes. -/
inductive Fault where
  /-- There is no line that is not empty. -/
  | empty
  /-- A quote in a field that does not start with one. -/
  | bareQuote (start line column : Nat)
  /-- A quoted field that ends too early or never. -/
  | strayQuote (start line column : Nat)
deriving DecidableEq, Repr

/-- The place of a fault; the line where the list starts is named if it is another one. -/
def place (start line column : Nat) : String :=
  (if start = line then "" else s!"record on line {start}; ") ++ s!"parse error on line {line}, column {column}: "

/-- The wording of a fault. -/
def Fault.message : Fault → String
  | .empty => "EOF"
  | .bareQuote s l c => place s l c ++ "bare \" in non-quoted-field"
  | .strayQuote s l c => place s l c ++ "extraneous or missing \" in quoted-field"

/-- The byte of a double quote. -/
def quoteByte : UInt8 := Bytes.ascii '"'

/-- The byte of a comma. -/
def commaByte : UInt8 := Bytes.ascii ','

/-- The byte that ends a line. -/
def newline : UInt8 := 0x0A

/-- The byte that may stand before the end of a line and does not count. -/
def carriageReturn : UInt8 := 0x0D

/-- A line without its end. -/
def withoutEnd (line : Bytes) : Bytes :=
  if line.getLast? == some newline then line.dropLast else line

/-- A line as it counts: without a carriage return at its end. -/
def normal (line : Bytes) : Bytes :=
  let ended := line.getLast? == some newline
  let body := withoutEnd line
  let body := if body.getLast? == some carriageReturn then body.dropLast else body
  if ended then body ++ [newline] else body

/-- The lines of a text, each with its end; what is kept for the current line comes first. -/
def linesFrom : Bytes → Bytes → List Bytes
  | line, [] => if line.isEmpty then [] else [line]
  | line, b :: bs => if b == newline then (line ++ [b]) :: linesFrom [] bs else linesFrom (line ++ [b]) bs

/-- The lines of a text as they count. -/
def lines (bs : Bytes) : List Bytes :=
  (linesFrom [] bs).map normal

mutual

/-- The fields from a column of a line on. The fuel bounds the steps. -/
def fields (start : Nat) : Nat → Nat → Nat → Bytes → List Bytes → Except Fault (List Bytes)
  | 0, line, column, _, _ => .error (.strayQuote start line column)
  | fuel + 1, line, column, text, more =>
    if text.head? == some quoteByte then quoted start fuel line (column + 1) [] text.tail more
    else
      let field := text.takeWhile (· != commaByte)
      let shown := if field.length = text.length then withoutEnd text else field
      if shown.contains quoteByte then
        .error (.bareQuote start line (column + (shown.takeWhile (· != quoteByte)).length))
      else
        match text.dropWhile (· != commaByte) with
        | [] => .ok [shown]
        | _ :: rest => do
          let others ← fields start fuel line (column + field.length + 1) rest more
          return shown :: others

/-- The fields from inside a quoted one on. -/
def quoted (start : Nat) : Nat → Nat → Nat → Bytes → Bytes → List Bytes → Except Fault (List Bytes)
  | 0, line, column, _, _, _ => .error (.strayQuote start line column)
  | fuel + 1, line, column, field, text, more =>
    let part := text.takeWhile (· != quoteByte)
    match text.dropWhile (· != quoteByte), more with
    | [], [] => .error (.strayQuote start line (column + text.length))
    | [], next :: others =>
      if text.isEmpty then .error (.strayQuote start line column)
      else if next.isEmpty then .error (.strayQuote start line (column + text.length))
      else quoted start fuel (line + 1) 1 (field ++ text) next others
    | _ :: rest, more =>
      let field := field ++ part
      let column := column + part.length + 1
      if rest.head? == some quoteByte then quoted start fuel line (column + 1) (field ++ [quoteByte]) rest.tail more
      else if rest.head? == some commaByte then do
        let others ← fields start fuel line (column + 1) rest.tail more
        return field :: others
      else if (withoutEnd rest).isEmpty then .ok [field]
      else .error (.strayQuote start line (column - 1))

end

/-- The fields of the first line that is not empty. -/
def firstRecord (line : Nat) : List Bytes → Except Fault (List Bytes)
  | [] => .error .empty
  | text :: more =>
    if (withoutEnd text).isEmpty then firstRecord (line + 1) more
    else fields line (2 * (text.length + more.flatten.length + more.length) + 2) line 1 text more

/-- The fields of a text. The empty text has none. -/
def parse (bs : Bytes) : Except Fault (List Bytes) :=
  if bs.isEmpty then .ok [] else firstRecord 1 (lines bs)

end ModalGraph.Text.Separated
