import ModalGraph.SettingsText.Term

/-!
# Bodies of settings text

A body is a list of attributes and blocks, each on lines of its own. A block has a kind, labels, and a body between braces; on
one line it holds at most one attribute. No name is given to two attributes of one body.
-/

namespace ModalGraph.SettingsText

/-- An item of a body. -/
inductive Item where
  | assign (name : String) (value : Term)
  | block (kind : String) (labels : List String) (body : List Item)
deriving Repr, Inhabited

namespace Item

/-- The name of an attribute. -/
def name? : Item → Option String
  | .assign name _ => some name
  | .block .. => none

/-- The term of an attribute of some name. -/
def valueOf? (name : String) : Item → Option Term
  | .assign n t => if n == name then some t else none
  | .block .. => none

/-- The labels and the body of a block of some kind. -/
def blockOf? (kind : String) : Item → Option (List String × List Item)
  | .assign .. => none
  | .block k labels body => if k == kind then some (labels, body) else none

end Item

/-- The term of the attribute of some name. -/
def assigned? (body : List Item) (name : String) : Option Term :=
  body.findSome? (Item.valueOf? name)

/-- The blocks of some kind, in order. -/
def blocks (body : List Item) (kind : String) : List (List String × List Item) :=
  body.filterMap (Item.blockOf? kind)

/-- Whether no two attributes have one name. -/
def distinct (body : List Item) : Bool :=
  let names := body.filterMap Item.name?
  names.eraseDups.length == names.length

/-- The tokens after the end of a line; the end of the text is one. -/
def endOfLine? : List Token → Option (List Token)
  | [] => some []
  | .newline :: rest => some rest
  | _ => none

/-- The literals at the front of some tokens as one text, through the end of the text they make up. -/
def plainText? : List Token → Option (String × List Token)
  | .closeText :: rest => some ("", rest)
  | .literal s :: rest => (plainText? rest).map fun (t, rest) => (s ++ t, rest)
  | _ => none

/-- Labels up to the opening brace of a block, and the tokens after it. A label is a name or a text between quotes that holds no
expressions. -/
def labels (fuel : Nat) (ts : List Token) : Option (List String × List Token) :=
  match fuel with
  | 0 => none
  | fuel + 1 =>
    match ts with
    | .sign "\x7b" :: rest => some ([], rest)
    | .name s :: rest => (labels fuel rest).map fun (ls, rest) => (s :: ls, rest)
    | .openQuote :: rest => do
      let (s, rest) ← plainText? rest
      let (ls, rest) ← labels fuel rest
      return (s :: ls, rest)
    | _ => none

/-- The attribute of a name, up to the end of its term. -/
def assignment (name : String) (ts : List Token) : Option (Item × List Token) :=
  (term (12 * ts.length + 24) true ts).map fun (t, rest) => (.assign name t, rest)

mutual

/-- The items of a body up to its end: the closing brace of a block, or the end of the text. -/
def bodyItems (fuel : Nat) (inBlock : Bool) (ts : List Token) : Option (List Item × List Token) :=
  match fuel with
  | 0 => none
  | fuel + 1 =>
    match ts with
    | [] => if inBlock then none else some ([], [])
    | .newline :: rest => bodyItems fuel inBlock rest
    | .sign "\x7d" :: rest => if inBlock then some ([], rest) else none
    | .name s :: rest => do
      let (i, rest) ← bodyItem fuel s rest
      let rest ← endOfLine? rest
      let (more, rest) ← bodyItems fuel inBlock rest
      return (i :: more, rest)
    | _ => none

/-- The item that starts with a name. -/
def bodyItem (fuel : Nat) (name : String) (ts : List Token) : Option (Item × List Token) :=
  match fuel with
  | 0 => none
  | fuel + 1 =>
    match ts with
    | .sign "=" :: rest => assignment name rest
    | ts => do
      let (ls, rest) ← labels (ts.length + 1) ts
      let (body, rest) ← blockBody fuel rest
      if distinct body then return (.block name ls body, rest) else none

/-- The body of a block: one attribute and the closing brace on the line of the opening one, or items on lines of their own. -/
def blockBody (fuel : Nat) (ts : List Token) : Option (List Item × List Token) :=
  match fuel with
  | 0 => none
  | fuel + 1 =>
    match ts with
    | .name s :: .sign "=" :: rest => do
      let (i, rest) ← assignment s rest
      let rest ← expect? true "\x7d" rest
      return ([i], rest)
    | .name _ :: _ => none
    | ts => bodyItems fuel true ts

end

/-- The body of a text. -/
def parse? (text : String) : Option (List Item) := do
  let ts ← tokens? text
  let (body, _) ← bodyItems (3 * ts.length + 3) false ts
  if distinct body then return body else none

end ModalGraph.SettingsText
