import ModalGraph.Text.Quoted

/-!
# Tokens of formula text

A token is a lexeme with the position of its first byte. A name may carry an argument in square brackets; the argument belongs
to the token. `Token.literal` is the source text of a token, `Position.after` the position reached by reading some bytes.
A `SyntaxError` says where formula text goes wrong, which token stands there, and why.
-/

namespace ModalGraph.Formula

/-- A place in formula text: a byte offset from 0, a line from 1, and a byte column from 1. -/
structure Position where
  offset : Nat
  line : Nat
  column : Nat
deriving DecidableEq, Repr, Inhabited

namespace Position

/-- The first place of a text. -/
def start : Position := ⟨0, 1, 1⟩

/-- The place of a node that was built without a text. -/
def none : Position := ⟨0, 0, 0⟩

/-- The place after one more byte: a newline starts the next line. -/
def advance (p : Position) (b : UInt8) : Position :=
  if b == Bytes.ascii '\n' then ⟨p.offset + 1, p.line + 1, 1⟩ else ⟨p.offset + 1, p.line, p.column + 1⟩

/-- The place after some more bytes. -/
def after (p : Position) (bs : Bytes) : Position :=
  bs.foldl advance p

/-- Line and column, as messages show them. -/
def text (p : Position) : String :=
  s!"{p.line}:{p.column}"

end Position

/-- The kinds of token, in the order of their codes. -/
inductive TokenKind where
  | endOfInput
  | illegal
  | identifier
  | mu
  | nu
  | parallel
  | rightDiamond
  | leftDiamond
  | bar
  | less
  | greater
  | semicolon
  | openParen
  | closeParen
  | comma
  | dot
deriving DecidableEq, Repr, Inhabited

namespace TokenKind

/-- All kinds; the place of a kind is its code. -/
def all : List TokenKind :=
  [.endOfInput, .illegal, .identifier, .mu, .nu, .parallel, .rightDiamond, .leftDiamond, .bar, .less, .greater, .semicolon,
    .openParen, .closeParen, .comma, .dot]

/-- The name of a kind in messages. -/
def name : TokenKind → String
  | .endOfInput => "end of input"
  | .illegal => "illegal"
  | .identifier => "identifier"
  | .mu => "mu"
  | .nu => "nu"
  | .parallel => "||"
  | .rightDiamond => "|>"
  | .leftDiamond => "<|"
  | .bar => "|"
  | .less => "<"
  | .greater => ">"
  | .semicolon => ";"
  | .openParen => "("
  | .closeParen => ")"
  | .comma => ","
  | .dot => "."

/-- The name that goes with a code; a code of no kind is shown as a number. -/
def nameOfCode (code : Nat) : String :=
  match all[code]? with
  | some k => k.name
  | none => s!"token({code})"

end TokenKind

/-- A name with its bracketed argument, if it has one, in source form. -/
def bracketed (name : Bytes) : Option Bytes → Bytes
  | none => name
  | some arg => name ++ Bytes.ascii '[' :: (arg ++ [Bytes.ascii ']'])

/-- A lexeme and the place of its first byte. For a name, `text` is the name without the argument. -/
structure Token where
  kind : TokenKind
  text : Bytes
  arg : Option Bytes
  pos : Position
deriving DecidableEq, Repr, Inhabited

namespace Token

/-- The source text of a token. -/
def literal (t : Token) : Bytes :=
  bracketed t.text t.arg

/-- The token that closes every token list. -/
def eof (p : Position) : Token :=
  ⟨.endOfInput, [], none, p⟩

end Token

/-- Why formula text is malformed. -/
inductive SyntaxFault where
  | unexpectedCharacter
  | unterminatedArgumentOf (name : Bytes)
  | unterminatedArgument
  | unexpectedToken (kind : TokenKind)
  | expected (what : String)
  | unbalanced
  | emptySubExpression
  | emptyParallel
  | unknownBinder (word : Bytes)
  | variableWithArgument
  | tooDeep
deriving DecidableEq, Repr, Inhabited

/-- The wording of a fault. -/
def SyntaxFault.message : SyntaxFault → String
  | .unexpectedCharacter => "unexpected character"
  | .unterminatedArgumentOf name => "unterminated argument of " ++ name.toText
  | .unterminatedArgument => "unterminated argument"
  | .unexpectedToken kind => "unexpected " ++ kind.name
  | .expected what => "expected " ++ what
  | .unbalanced => "unbalanced parentheses"
  | .emptySubExpression => "empty sub-expression"
  | .emptyParallel => "empty parallel composition"
  | .unknownBinder word => "unknown binder keyword " ++ Text.quote word
  | .variableWithArgument => "bound variable takes no argument"
  | .tooDeep => "nesting too deep"

/-- Malformed formula text: the place, the source text of the token there (empty at the end of the input), and the fault. -/
structure SyntaxError where
  pos : Position
  token : Bytes
  fault : SyntaxFault
deriving DecidableEq, Repr, Inhabited

/-- The wording of a syntax error. -/
def SyntaxError.message (e : SyntaxError) : String :=
  if e.token.isEmpty then s!"syntax error at {e.pos.text}: {e.fault.message}"
  else s!"syntax error at {e.pos.text} near {Text.quote e.token}: {e.fault.message}"

/-- The error for a fault at a token. -/
def Token.error (t : Token) (fault : SyntaxFault) : SyntaxError :=
  ⟨t.pos, t.literal, fault⟩

end ModalGraph.Formula
