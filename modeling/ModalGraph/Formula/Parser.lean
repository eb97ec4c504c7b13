import ModalGraph.Formula.Lexer
import ModalGraph.Formula.Expr

/-!
# From tokens to formulas

The grammar, loosest first:

* `expr` is one or more `seq` joined by `||`, a flat list;
* `seq` is one or more `unary` joined by `;`, grouped to the left;
* `unary` is a diamond, a binder with a `unary` body, an `expr` in parentheses, or a name.

A name without argument is a variable below a binder of that name and an operator elsewhere. Every function takes the tokens
that are left and gives back those after what it read. The number of nested calls never exceeds three per token, so `parse`
starts them with that much fuel.
-/

namespace ModalGraph.Formula

/-- The first token. A token list is never empty: the end token closes it and is never consumed. -/
def peek (ts : List Token) : Token :=
  ts.headD (Token.eof Position.none)

/-- The token `k` places further on, or the last one. -/
def peekAt (ts : List Token) (k : Nat) : Token :=
  ts.getD k (ts.getLastD (Token.eof Position.none))

/-- The tokens after the first one; the end token stays. -/
def advance (ts : List Token) : List Token :=
  if (peek ts).kind = .endOfInput then ts else ts.tail

/-- The first token, if it is of the given kind. -/
def need (kind : TokenKind) (what : String) (ts : List Token) : Except SyntaxError (Token × List Token) :=
  if (peek ts).kind = kind then .ok (peek ts, advance ts) else .error ((peek ts).error (.expected what))

/-- A name with its argument, in source form. -/
def operatorName (what : String) (ts : List Token) : Except SyntaxError (Bytes × List Token) := do
  let (t, ts) ← need .identifier what ts
  return (t.literal, ts)

/-- A name if one follows. -/
def optionalName (ts : List Token) : Option Bytes × List Token :=
  if (peek ts).kind = .identifier then (some (peek ts).literal, advance ts) else (none, ts)

/-- The diamond that starts at place `p`, after its opening sign: an optional message name, the closing sign, and the
aggregation name. -/
def diamondBody (p : Position) (direction : Direction) (closing : TokenKind) (what : String) (ts : List Token) :
    Except SyntaxError (Expr × List Token) := do
  let (phi, ts) := optionalName ts
  let (_, ts) ← need closing what ts
  let (sigma, ts) ← operatorName "aggregation name" ts
  return (.diamond p direction phi sigma, ts)

/-- The diamond without message name that starts at place `p`, after its sign. -/
def plainDiamond (p : Position) (direction : Direction) (ts : List Token) : Except SyntaxError (Expr × List Token) := do
  let (sigma, ts) ← operatorName "aggregation name" ts
  return (.diamond p direction none sigma, ts)

/-- The head of a fixpoint after its binder word: variable, comma, base, dot. -/
def binderHead (ts : List Token) : Except SyntaxError ((Bytes × Bytes) × List Token) := do
  let (v, ts) ← need .identifier "bound variable" ts
  if v.arg.isSome then throw (v.error .variableWithArgument)
  let (_, ts) ← need .comma "','" ts
  let (base, ts) ← operatorName "fixpoint configuration name" ts
  let (_, ts) ← need .dot "'.'" ts
  return ((v.text, base), ts)

/-- A name: a variable below a binder of that name, else an operator. -/
def nameExpr (scope : List Bytes) (t : Token) : Expr :=
  if t.arg.isNone && scope.contains t.text then .var t.pos t.text else .atom t.pos t.text t.arg

/-- The error of a `unary` at a token that cannot start one. -/
def unaryError (t : Token) : SyntaxError :=
  match t.kind with
  | .endOfInput => t.error .emptySubExpression
  | .closeParen => t.error .emptySubExpression
  | kind => t.error (.unexpectedToken kind)

mutual

/-- One or more `seq` joined by `||`. -/
def expr (fuel : Nat) (scope : List Bytes) (ts : List Token) : Except SyntaxError (Expr × List Token) :=
  match fuel with
  | 0 => .error ((peek ts).error .tooDeep)
  | fuel + 1 => do
    let (first, rest) ← seq fuel scope ts
    let (others, rest) ← parTail fuel scope rest
    if others.isEmpty then return (first, rest) else return (.par (peek ts).pos (first :: others), rest)

/-- The further `seq` of an `expr`, each after `||`. -/
def parTail (fuel : Nat) (scope : List Bytes) (ts : List Token) : Except SyntaxError ((List Expr) × List Token) :=
  match fuel with
  | 0 => .error ((peek ts).error .tooDeep)
  | fuel + 1 =>
    if (peek ts).kind = .parallel then do
      let (e, rest) ← seq fuel scope (advance ts)
      let (es, rest) ← parTail fuel scope rest
      return (e :: es, rest)
    else .ok ([], ts)

/-- One or more `unary` joined by `;`. -/
def seq (fuel : Nat) (scope : List Bytes) (ts : List Token) : Except SyntaxError (Expr × List Token) :=
  match fuel with
  | 0 => .error ((peek ts).error .tooDeep)
  | fuel + 1 => do
    let (first, rest) ← unary fuel scope ts
    seqTail fuel scope (peek ts).pos first rest

/-- The further `unary` of a `seq` that starts at place `p`, each after `;`, composed with what stands to their left. -/
def seqTail (fuel : Nat) (scope : List Bytes) (p : Position) (left : Expr) (ts : List Token) :
    Except SyntaxError (Expr × List Token) :=
  match fuel with
  | 0 => .error ((peek ts).error .tooDeep)
  | fuel + 1 =>
    if (peek ts).kind = .semicolon then do
      let (right, rest) ← unary fuel scope (advance ts)
      seqTail fuel scope p (.seq p left right) rest
    else .ok (left, ts)

/-- A diamond, a binder, a parenthesis or a name. -/
def unary (fuel : Nat) (scope : List Bytes) (ts : List Token) : Except SyntaxError (Expr × List Token) :=
  match fuel with
  | 0 => .error ((peek ts).error .tooDeep)
  | fuel + 1 =>
    let t := peek ts
    let rest := advance ts
    match t.kind with
    | .rightDiamond => plainDiamond t.pos .forward rest
    | .leftDiamond => plainDiamond t.pos .backward rest
    | .bar => diamondBody t.pos .forward .greater "'>' closing right diamond" rest
    | .less => diamondBody t.pos .backward .bar "'|' closing left diamond" rest
    | .openParen =>
      if (peek rest).kind = .closeParen then .error ((peek rest).error .emptySubExpression)
      else do
        let (e, rest) ← expr fuel scope rest
        let c := peek rest
        if c.kind = .closeParen then return (e, advance rest)
        else if c.kind = .endOfInput then throw (t.error .unbalanced)
        else throw (c.error (.expected "')'"))
    | .mu => do
      let ((v, base), rest) ← binderHead rest
      let (body, rest) ← unary fuel (v :: scope) rest
      return (.fix t.pos true v base body, rest)
    | .nu => do
      let ((v, base), rest) ← binderHead rest
      let (body, rest) ← unary fuel (v :: scope) rest
      return (.fix t.pos false v base body, rest)
    | .identifier =>
      if (peekAt ts 1).kind = .identifier ∧ (peekAt ts 2).kind = .comma then .error (t.error (.unknownBinder t.text))
      else .ok (nameExpr scope t, rest)
    | _ => .error (unaryError t)

end

/-- The error of a token that follows a complete formula. -/
def trailingError (t : Token) : SyntaxError :=
  if t.kind = .closeParen then t.error .unbalanced else t.error (.unexpectedToken t.kind)

/-- The formula that a token list, closed by the end token, spells. -/
def parseTokens (ts : List Token) : Except SyntaxError Expr := do
  let (e, rest) ← expr (3 * ts.length + 3) [] ts
  if (peek rest).kind = .endOfInput then return e else throw (trailingError (peek rest))

/-- The formula that a text spells. -/
def parse (src : Bytes) : Except SyntaxError Expr := do
  let ts ← tokens src
  parseTokens ts

/-- A formula is the one that a text spells if the parser finds the same one. -/
theorem parse_of_same {src : Bytes} {e : Expr} (h : (parse src).toOption.any e.same = true) : parse src = .ok e := by
  cases hparse : parse src with
  | error f =>
    rw [hparse] at h
    cases h
  | ok f =>
    rw [hparse] at h
    rw [Expr.eq_of_same h]

/-- Whether the canonical text of a formula spells a formula with the same canonical text. -/
def Expr.reparses (e : Expr) : Except SyntaxError Bool := do
  let f ← parse e.key
  return f.key == e.key

end ModalGraph.Formula
