import ModalGraph.SettingsText.Number
import ModalGraph.SettingsText.Token
import ModalGraph.Text.Joining

/-!
# Terms of settings text

A term is what stands to the right of an equals sign: a literal, a text with expressions and directives inside, a tuple, an
object, one of these made by going through a collection, an operator on other terms, something picked out of a term, or a name.
Binary operators bind in six levels and to the left; the conditional binds weakest. Where brackets are open, the end of a line
does not count, except between the members of an object.
-/

namespace ModalGraph.SettingsText

/-- A binary operator. -/
inductive BinaryOp where
  | or
  | and
  | equal
  | unequal
  | greater
  | greaterEqual
  | less
  | lessEqual
  | add
  | subtract
  | multiply
  | divide
  | modulo
deriving DecidableEq, Repr

/-- The signs of the binary operators in the levels in which they bind, the weakest first. -/
def BinaryOp.levels : List (List (String × BinaryOp)) :=
  [[("||", .or)], [("&&", .and)], [("==", .equal), ("!=", .unequal)],
    [(">", .greater), (">=", .greaterEqual), ("<", .less), ("<=", .lessEqual)], [("+", .add), ("-", .subtract)],
    [("*", .multiply), ("/", .divide), ("%", .modulo)]]

/-- The names that a collection is gone through with: one for its items, and perhaps one for their keys. -/
structure Binder where
  key : Option String
  item : String
deriving DecidableEq, Repr, Inhabited

/-- A term. -/
inductive Term where
  | null
  | bool (b : Bool)
  | number (n : Number)
  | literal (s : String)
  /-- A text made of the texts of its parts. -/
  | template (parts : List Term)
  /-- A text made of the texts of the items of a tuple. -/
  | joined (items : Term)
  | variable (name : String)
  /-- A call of a function. No functions are known, so what it is called with does not matter. -/
  | call (name : String)
  | tuple (items : List Term)
  | object (keys values : List Term)
  /-- A key that could be meant as a name or as a path. -/
  | ambiguous
  | not (t : Term)
  | negate (t : Term)
  | binary (op : BinaryOp) (left right : Term)
  | conditional (condition yes no : Term)
  | index (t key : Term)
  | member (t : Term) (name : String)
  /-- What `each` picks out of every item of a sequence; `each` is built on `here`. -/
  | splat (source each : Term)
  /-- The item that a splat is at. -/
  | here
  /-- A tuple of the values for those items of a collection that fulfil a condition. -/
  | gather (names : Binder) (source value condition : Term)
  /-- An object of the values for those items of a collection that fulfil a condition; values of one key are collected in a
  tuple if `grouped`. -/
  | gatherObject (names : Binder) (source key value condition : Term) (grouped : Bool)
deriving Repr, Inhabited

namespace Term

/-- A term that is written out: no value has to be worked out for it. -/
def isConstant : Term → Bool
  | .null => true
  | .bool _ => true
  | .number _ => true
  | .literal _ => true
  | _ => false

/-- A name, or constant steps from a name. -/
def isPath : Term → Bool
  | .variable _ => true
  | .member t _ => t.isPath
  | .index t key => t.isPath && key.isConstant
  | _ => false

/-- A term that starts with a name, as the key of an object: a name alone spells itself. -/
def asKey : Term → Term
  | .variable s => .literal s
  | .bool b => .literal (if b then "true" else "false")
  | .null => .literal "null"
  | t => if t.isPath then .ambiguous else t

end Term

/-! ## Parts of a text -/

/-- A part of a text: characters, an expression, or a directive. -/
inductive Part where
  | literal (s : String)
  | hole (t : Term)
  | ifStart (condition : Term)
  | otherwise
  | endIf
  | forStart (names : Binder) (source : Term)
  | endFor
deriving Repr, Inhabited

def trimLeft (s : String) : String :=
  String.ofList (s.toList.dropWhile Text.isBlank)

def trimRight (s : String) : String :=
  String.ofList ((s.toList.reverse.dropWhile Text.isBlank).reverse)

/-- Whether the next token asks to trim what stands before it. -/
def trimsBefore : List Token → Bool
  | .openHole trim :: _ => trim
  | .openDirective trim :: _ => trim
  | _ => false

def endsLine (s : String) : Bool :=
  s.toList.getLast? == some '\n'

/-- How many blanks a part puts at the start of a line; none if it is a blank line, which does not count. -/
def indentation? : Part → Option Nat
  | .literal s =>
    let blanks := s.toList.takeWhile Text.isBlank
    if blanks.length = s.length && endsLine s then none else some blanks.length
  | _ => some 0

/-- Whether a line starts after a part. -/
def Part.startsLine : Part → Bool
  | .literal s => endsLine s
  | _ => false

/-- The parts with which lines start; `fresh` says whether the first one does. -/
def lineStarts (fresh : Bool) : List Part → List Part
  | [] => []
  | p :: ps => if fresh then p :: lineStarts p.startsLine ps else lineStarts p.startsLine ps

/-- The parts without the first `n` blanks of every line that is not blank. A mark on a blank goes with it. -/
def withoutIndentation (n : Nat) (fresh : Bool) : List Part → List Part
  | [] => []
  | p :: ps =>
    let q := match p with
      | .literal s => if fresh && (indentation? p).isSome then .literal (String.ofList (Text.dropBlanks n s.toList)) else p
      | p => p
    q :: withoutIndentation n p.startsLine ps

/-- The parts of a text without the indentation that all its lines share. -/
def flushed (ps : List Part) : List Part :=
  match (lineStarts true ps).filterMap indentation? with
  | [] => ps
  | n :: ns => withoutIndentation (ns.foldl Nat.min n) true ps

/-- The parts with neighbouring literals joined. -/
def melded : List Part → List Part
  | [] => []
  | .literal s :: ps =>
    match melded ps with
    | .literal t :: rest => .literal (s ++ t) :: rest
    | rest => .literal s :: rest
  | p :: ps => p :: melded ps

/-- The terms of some parts up to a directive that ends or divides them, and the parts from there on. -/
def partTerms (fuel : Nat) (ps : List Part) : Option (List Term × List Part) :=
  match fuel, ps with
  | _, [] => some ([], [])
  | 0, _ => none
  | fuel + 1, .literal s :: ps => (partTerms fuel ps).map fun (ts, rest) => (.literal s :: ts, rest)
  | fuel + 1, .hole t :: ps => (partTerms fuel ps).map fun (ts, rest) => (t :: ts, rest)
  | fuel + 1, .ifStart condition :: ps => do
    let (yes, rest) ← partTerms fuel ps
    let (no, rest) ← match rest with
      | .otherwise :: rest => partTerms fuel rest
      | rest => some ([], rest)
    match rest with
    | .endIf :: rest =>
      let (more, rest) ← partTerms fuel rest
      return (.conditional condition (.template yes) (.template no) :: more, rest)
    | _ => none
  | fuel + 1, .forStart names source :: ps => do
    let (body, rest) ← partTerms fuel ps
    match rest with
    | .endFor :: rest =>
      let (more, rest) ← partTerms fuel rest
      return (.joined (.gather names source (.template body) (.bool true)) :: more, rest)
    | _ => none
  | _ + 1, ps => some ([], ps)

/-- The term of a text. An expression that stands alone keeps its value as it is. -/
def textTerm? (flush : Bool) (ps : List Part) : Option Term :=
  match melded (if flush then flushed ps else ps) with
  | [] => some (.literal "")
  | [.literal s] => some (.literal s)
  | [.hole t] => some t
  | ps =>
    match partTerms (ps.length + 1) ps with
    | some (ts, []) => some (.template ts)
    | _ => none

/-! ## Reading terms -/

/-- The tokens from the next one that counts: where lines do not count, their ends are passed over. -/
def skipLines (lines : Bool) (ts : List Token) : List Token :=
  if lines then ts else ts.dropWhile (· == .newline)

/-- The tokens after a sign. -/
def expect? (lines : Bool) (s : String) (ts : List Token) : Option (List Token) :=
  match skipLines lines ts with
  | t :: rest => if t == .sign s then some rest else none
  | [] => none

/-- The name at the front of some tokens, and the tokens after it. -/
def name? (lines : Bool) (ts : List Token) : Option (String × List Token) :=
  match skipLines lines ts with
  | .name s :: rest => some (s, rest)
  | _ => none

/-- The tokens after a word. -/
def expectWord? (lines : Bool) (word : String) (ts : List Token) : Option (List Token) :=
  match name? lines ts with
  | some (s, rest) => if s == word then some rest else none
  | none => none

/-- The operator at the front of some tokens, among those of a level, and the tokens after it. -/
def operator? (lines : Bool) (level : List (String × BinaryOp)) (ts : List Token) : Option (BinaryOp × List Token) :=
  match skipLines lines ts with
  | .sign s :: rest => (level.lookup s).map fun op => (op, rest)
  | _ => none

/-- The end of an expression or a directive in a text: whether it trims what follows, and the tokens after it. -/
def closeHole? (ts : List Token) : Option (Bool × List Token) :=
  match skipLines false ts with
  | .closeHole trim :: rest => some (trim, rest)
  | _ => none

/-- The names after the word that starts going through a collection, through the word before the collection. -/
def binder? (ts : List Token) : Option (Binder × List Token) := do
  let (first, rest) ← name? false ts
  match expect? false "," rest with
  | none => return (⟨none, first⟩, ← expectWord? false "in" rest)
  | some rest =>
    let (second, rest) ← name? false rest
    return (⟨some first, second⟩, ← expectWord? false "in" rest)

/-- The term of a name that stands alone. -/
def nameTerm (s : String) : Term :=
  if s == "true" then .bool true else if s == "false" then .bool false else if s == "null" then .null else .variable s

/-- A place written after a point. It has no point of its own. -/
def placeTerm? (spelling : String) : Option Term :=
  if spelling.toList.contains '.' then none else (Number.ofText? spelling).map .number

/-- Members and places picked out of a term, each after a point. -/
def pointSteps (fuel : Nat) (lines : Bool) (t : Term) (ts : List Token) : Option (Term × List Token) :=
  match fuel with
  | 0 => none
  | fuel + 1 =>
    match expect? lines "." ts with
    | none => some (t, ts)
    | some rest =>
      match skipLines lines rest with
      | .name s :: rest => pointSteps fuel lines (.member t s) rest
      | .number s :: rest => do pointSteps fuel lines (.index t (← placeTerm? s)) rest
      | _ => none

/-- The rest of the name of a function, up to the parenthesis after it. -/
def functionName (lines : Bool) (name : String) (fuel : Nat) (ts : List Token) : Option (String × List Token) :=
  match fuel with
  | 0 => none
  | fuel + 1 =>
    match skipLines lines ts with
    | .sign "(" :: rest => some (name, rest)
    | .sign "::" :: rest => do
      let (s, rest) ← name? lines rest
      functionName lines (name ++ "::" ++ s) fuel rest
    | _ => none

mutual

/-- A term; `lines` says whether the end of a line counts. -/
def term (fuel : Nat) (lines : Bool) (ts : List Token) : Option (Term × List Token) :=
  match fuel with
  | 0 => none
  | fuel + 1 => do
    let (condition, rest) ← operation fuel lines BinaryOp.levels ts
    match expect? lines "?" rest with
    | none => return (condition, rest)
    | some rest =>
      let (yes, rest) ← term fuel lines rest
      let rest ← expect? lines ":" rest
      let (no, rest) ← term fuel lines rest
      return (.conditional condition yes no, rest)

/-- Operands joined by the operators of the first of some levels. -/
def operation (fuel : Nat) (lines : Bool) (levels : List (List (String × BinaryOp))) (ts : List Token) :
    Option (Term × List Token) :=
  match fuel with
  | 0 => none
  | fuel + 1 =>
    match levels with
    | [] => access fuel lines ts
    | level :: tighter => do
      let (left, rest) ← operation fuel lines tighter ts
      operationRest fuel lines level tighter left rest

/-- More operands of one level, the ones so far in `left`. -/
def operationRest (fuel : Nat) (lines : Bool) (level : List (String × BinaryOp)) (tighter : List (List (String × BinaryOp)))
    (left : Term) (ts : List Token) : Option (Term × List Token) :=
  match fuel with
  | 0 => none
  | fuel + 1 =>
    match operator? lines level ts with
    | none => some (left, ts)
    | some (op, rest) => do
      let (right, rest) ← operation fuel lines tighter rest
      operationRest fuel lines level tighter (.binary op left right) rest

/-- A primary term with what is picked out of it. -/
def access (fuel : Nat) (lines : Bool) (ts : List Token) : Option (Term × List Token) :=
  match fuel with
  | 0 => none
  | fuel + 1 => do
    let (t, rest) ← primary fuel lines ts
    accessRest fuel lines t rest

/-- What is picked out of a term: a member by its name, an item by its place, or something out of every item. A star after a
point goes only through the steps with points that follow it, a star in brackets through all that follow. -/
def accessRest (fuel : Nat) (lines : Bool) (t : Term) (ts : List Token) : Option (Term × List Token) :=
  match fuel with
  | 0 => none
  | fuel + 1 =>
    match skipLines lines ts with
    | .sign "." :: rest =>
      match skipLines lines rest with
      | .name s :: rest => accessRest fuel lines (.member t s) rest
      | .number s :: rest => do accessRest fuel lines (.index t (← placeTerm? s)) rest
      | .sign "*" :: rest => do
        let (each, rest) ← pointSteps (rest.length + 1) lines .here rest
        accessRest fuel lines (.splat t each) rest
      | _ => none
    | .sign "[" :: rest =>
      match expect? lines "*" rest with
      | some rest => do
        let rest ← expect? lines "]" rest
        let (each, rest) ← accessRest fuel lines .here rest
        accessRest fuel lines (.splat t each) rest
      | none => do
        let (key, rest) ← term fuel false rest
        let rest ← expect? false "]" rest
        accessRest fuel lines (.index t key) rest
    | _ => some (t, ts)

/-- A primary term. -/
def primary (fuel : Nat) (lines : Bool) (ts : List Token) : Option (Term × List Token) :=
  match fuel with
  | 0 => none
  | fuel + 1 =>
    match skipLines lines ts with
    | .number s :: rest => (Number.ofText? s).map fun n => (.number n, rest)
    | .name s :: rest =>
      if (expect? lines "(" rest).isSome || (expect? lines "::" rest).isSome then do
        let (name, rest) ← functionName lines s (rest.length + 1) rest
        let rest ← arguments fuel rest
        return (.call name, rest)
      else some (nameTerm s, rest)
    | .openQuote :: rest => textFrom fuel false rest
    | .openLines flush :: rest => textFrom fuel flush rest
    | .sign "(" :: rest => do
      let (t, rest) ← term fuel false rest
      let rest ← expect? false ")" rest
      return (t, rest)
    | .sign "-" :: rest => do
      let (t, rest) ← access fuel lines rest
      return (.negate t, rest)
    | .sign "!" :: rest => do
      let (t, rest) ← access fuel lines rest
      return (.not t, rest)
    | .sign "[" :: rest =>
      match expectWord? false "for" rest with
      | some rest => gathering fuel false rest
      | none => do
        let (ts, rest) ← items fuel rest
        return (.tuple ts, rest)
    | .sign "\x7b" :: rest =>
      match expectWord? false "for" rest with
      | some rest => gathering fuel true rest
      | none => do
        let ((keys, values), rest) ← members fuel rest
        return (.object keys values, rest)
    | _ => none

/-- The tokens after the arguments of a call, which may end with three points or a comma. -/
def arguments (fuel : Nat) (ts : List Token) : Option (List Token) :=
  match fuel with
  | 0 => none
  | fuel + 1 =>
    match expect? false ")" ts with
    | some rest => some rest
    | none => do
      let (_, rest) ← term fuel false ts
      match expect? false "," rest, expect? false "..." rest with
      | some rest, _ => arguments fuel rest
      | none, some rest => expect? false ")" rest
      | none, none => expect? false ")" rest

/-- Terms separated by commas up to a closing bracket; a comma may stand before it. -/
def items (fuel : Nat) (ts : List Token) : Option (List Term × List Token) :=
  match fuel with
  | 0 => none
  | fuel + 1 =>
    match expect? false "]" ts with
    | some rest => some ([], rest)
    | none => do
      let (t, rest) ← term fuel false ts
      match expect? false "]" rest with
      | some rest => return ([t], rest)
      | none =>
        let rest ← expect? false "," rest
        let (more, rest) ← items fuel rest
        return (t :: more, rest)

/-- The members of an object up to its closing brace, separated by commas or ends of lines. -/
def members (fuel : Nat) (ts : List Token) : Option ((List Term × List Term) × List Token) :=
  match fuel with
  | 0 => none
  | fuel + 1 =>
    match ts.dropWhile (· == .newline) with
    | .sign "\x7d" :: rest => some (([], []), rest)
    | ts => do
      let (key, rest) ← term fuel true ts
      let key := if (name? true ts).isSome then key.asKey else key
      let rest ← (expect? true "=" rest).or (expect? true ":" rest)
      let (value, rest) ← term fuel true rest
      match rest with
      | .sign "\x7d" :: rest => return (([key], [value]), rest)
      | .sign "," :: rest =>
        let ((keys, values), rest) ← members fuel rest
        return ((key :: keys, value :: values), rest)
      | .newline :: rest =>
        let ((keys, values), rest) ← members fuel rest
        return ((key :: keys, value :: values), rest)
      | _ => none

/-- A tuple or an object made by going through a collection, after the word that starts it. An object has keys, a tuple none;
only an object collects values. -/
def gathering (fuel : Nat) (isObject : Bool) (ts : List Token) : Option (Term × List Token) :=
  match fuel with
  | 0 => none
  | fuel + 1 => do
    let (names, rest) ← binder? ts
    let (source, rest) ← term fuel false rest
    let rest ← expect? false ":" rest
    let (first, rest) ← term fuel false rest
    let (key, value, rest) ← match expect? false "=>" rest with
      | none => some (none, first, rest)
      | some rest => (term fuel false rest).map fun (value, rest) => (some first, value, rest)
    let (grouped, rest) := match expect? false "..." rest with
      | none => (false, rest)
      | some rest => (true, rest)
    let (condition, rest) ← match expectWord? false "if" rest with
      | none => some (.bool true, rest)
      | some rest => term fuel false rest
    let rest ← expect? false (if isObject then "\x7d" else "]") rest
    match isObject, key, grouped with
    | true, some key, _ => return (.gatherObject names source key value condition grouped, rest)
    | false, none, false => return (.gather names source value condition, rest)
    | _, _, _ => none

/-- The term of a text after its start. -/
def textFrom (fuel : Nat) (flush : Bool) (ts : List Token) : Option (Term × List Token) :=
  match fuel with
  | 0 => none
  | fuel + 1 => do
    let (parts, rest) ← textParts fuel false ts
    return (← textTerm? flush parts, rest)

/-- The parts of a text up to its end. A literal next to a tilde loses the blank space on that side. -/
def textParts (fuel : Nat) (trim : Bool) (ts : List Token) : Option (List Part × List Token) :=
  match fuel with
  | 0 => none
  | fuel + 1 =>
    match ts with
    | .closeText :: rest => some ([], rest)
    | .literal s :: rest => do
      let s := if trim then trimLeft s else s
      let s := if trimsBefore rest then trimRight s else s
      let (parts, rest) ← textParts fuel false rest
      return (.literal s :: parts, rest)
    | .openHole _ :: rest => do
      let (t, rest) ← term fuel false rest
      let (trim, rest) ← closeHole? rest
      let (parts, rest) ← textParts fuel trim rest
      return (.hole t :: parts, rest)
    | .openDirective _ :: rest => do
      let (part, rest) ← directive fuel rest
      let (trim, rest) ← closeHole? rest
      let (parts, rest) ← textParts fuel trim rest
      return (part :: parts, rest)
    | _ => none

/-- A directive up to its end. -/
def directive (fuel : Nat) (ts : List Token) : Option (Part × List Token) :=
  match fuel with
  | 0 => none
  | fuel + 1 =>
    match name? false ts with
    | some ("if", rest) => (term fuel false rest).map fun (t, rest) => (.ifStart t, rest)
    | some ("else", rest) => some (.otherwise, rest)
    | some ("endif", rest) => some (.endIf, rest)
    | some ("for", rest) => do
      let (names, rest) ← binder? rest
      let (source, rest) ← term fuel false rest
      return (.forStart names source, rest)
    | some ("endfor", rest) => some (.endFor, rest)
    | _ => none

end

end ModalGraph.SettingsText
