import ModalGraph.Formula.Token

/-!
# From bytes to tokens

White space separates tokens and is dropped. Of two readings the longer one is taken: two-byte signs before one-byte signs, and
a name with all the identifier bytes that follow. `lexeme` reads one lexeme off the front of a text and says how many bytes it
took; `tokens` repeats that and computes each token's place from the bytes before it.
-/

namespace ModalGraph.Formula

/-- Bytes between tokens: space, tab, carriage return and newline. -/
def isSpace (b : UInt8) : Bool :=
  b == Bytes.ascii ' ' || b == Bytes.ascii '\t' || b == Bytes.ascii '\r' || b == Bytes.ascii '\n'

/-- Bytes of names: letters and digits of ASCII and the underscore. -/
def isIdentByte (b : UInt8) : Bool :=
  b == Bytes.ascii '_' || (Bytes.ascii 'a' ≤ b && b ≤ Bytes.ascii 'z') || (Bytes.ascii 'A' ≤ b && b ≤ Bytes.ascii 'Z') ||
    (Bytes.ascii '0' ≤ b && b ≤ Bytes.ascii '9')

/-- A lexeme without its place, and the number of bytes it takes in the source. -/
structure Lexeme where
  kind : TokenKind
  text : Bytes
  arg : Option Bytes
  size : Nat
deriving DecidableEq, Repr

/-- A reading that fails: how many bytes lie before the place to report, the text to show there, and the fault. -/
structure LexFault where
  skip : Nat
  token : Bytes
  fault : SyntaxFault
deriving DecidableEq, Repr

/-- The lexeme of a sign. -/
def sign (kind : TokenKind) (text : Bytes) : Lexeme :=
  ⟨kind, text, none, text.length⟩

/-- The sign a text starts with, the two-byte signs first. -/
def sign? (b : UInt8) (rest : Bytes) : Option Lexeme :=
  let next := rest.head?
  if b == Bytes.ascii '|' && next == some (Bytes.ascii '|') then some (sign .parallel [b, b])
  else if b == Bytes.ascii '|' && next == some (Bytes.ascii '>') then some (sign .rightDiamond [b, Bytes.ascii '>'])
  else if b == Bytes.ascii '<' && next == some (Bytes.ascii '|') then some (sign .leftDiamond [b, Bytes.ascii '|'])
  else if b == Bytes.ascii '|' then some (sign .bar [b])
  else if b == Bytes.ascii '<' then some (sign .less [b])
  else if b == Bytes.ascii '>' then some (sign .greater [b])
  else if b == Bytes.ascii ';' then some (sign .semicolon [b])
  else if b == Bytes.ascii '(' then some (sign .openParen [b])
  else if b == Bytes.ascii ')' then some (sign .closeParen [b])
  else if b == Bytes.ascii ',' then some (sign .comma [b])
  else if b == Bytes.ascii '.' then some (sign .dot [b])
  else none

/-- The word that opens a least fixpoint. -/
def muWord : Bytes := [Bytes.ascii 'm', Bytes.ascii 'u']

/-- The word that opens a greatest fixpoint. -/
def nuWord : Bytes := [Bytes.ascii 'n', Bytes.ascii 'u']

/-- A byte that may stand inside a bracketed argument. -/
def isArgByte (b : UInt8) : Bool :=
  !(b == Bytes.ascii '[' || b == Bytes.ascii ']' || b == Bytes.ascii '\n')

/-- The bracketed argument that follows a name, given the bytes after the opening bracket. -/
def argument (name rest : Bytes) : Except LexFault Lexeme :=
  let arg := rest.takeWhile isArgByte
  match rest.dropWhile isArgByte with
  | [] => .error ⟨name.length, name ++ [Bytes.ascii '['], .unterminatedArgument⟩
  | b :: _ =>
    if b == Bytes.ascii ']' then .ok ⟨.identifier, name, some arg, name.length + arg.length + 2⟩
    else .error ⟨name.length + 1 + arg.length, [b], .unterminatedArgumentOf name⟩

/-- The name or binder word a text starts with. -/
def word (src : Bytes) : Except LexFault Lexeme :=
  let name := src.takeWhile isIdentByte
  if name == muWord then .ok ⟨.mu, name, none, name.length⟩
  else if name == nuWord then .ok ⟨.nu, name, none, name.length⟩
  else
    match src.dropWhile isIdentByte with
    | b :: rest => if b == Bytes.ascii '[' then argument name rest else .ok ⟨.identifier, name, none, name.length⟩
    | [] => .ok ⟨.identifier, name, none, name.length⟩

/-- The lexeme at the front of a text whose first byte is `b`. -/
def lexeme (b : UInt8) (rest : Bytes) : Except LexFault Lexeme :=
  match sign? b rest with
  | some l => .ok l
  | none =>
    if isIdentByte b then word (b :: rest)
    else .error ⟨0, Bytes.ofChar (Char.ofNat b.toNat), .unexpectedCharacter⟩

/-- The token of a lexeme at a place. -/
def Lexeme.at (l : Lexeme) (p : Position) : Token :=
  ⟨l.kind, l.text, l.arg, p⟩

/-- The tokens of the bytes that are left at a place, closed by the end token. A lexeme takes at least one byte. -/
def tokensFrom (p : Position) : Bytes → Except SyntaxError (List Token)
  | [] => .ok [Token.eof p]
  | b :: rest =>
    if isSpace b then tokensFrom (p.advance b) rest
    else
      match lexeme b rest with
      | .error f => .error ⟨p.after ((b :: rest).take f.skip), f.token, f.fault⟩
      | .ok l => do
        let more ← tokensFrom ((p.advance b).after (rest.take (l.size - 1))) (rest.drop (l.size - 1))
        return l.at p :: more
termination_by src => src.length
decreasing_by all_goals simp; try omega

/-- The tokens of a text, closed by the end token. -/
def tokens (src : Bytes) : Except SyntaxError (List Token) :=
  tokensFrom Position.start src

end ModalGraph.Formula
