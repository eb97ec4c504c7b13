import ModalGraph.Text.Bytes
import ModalGraph.Text.Printable

/-!
# Quoted text

Messages show names between double quotes. A quote and a backslash are written with a backslash in front, printable characters
as they are, the usual control characters by their letter, every other character by its code, and a byte that belongs to no
character by its value.
-/

namespace ModalGraph.Text

/-- The last `width` hexadecimal digits of `n`, in lower case, padded with zeros. -/
def hexDigits (width n : Nat) : List Char :=
  (List.range width).reverse.map fun i => Nat.digitChar (n / Nat.pow 16 i % 16)

/-- The two hexadecimal digits of a byte. -/
def hexByte (b : UInt8) : List Char :=
  hexDigits 2 b.toNat

/-- A character inside quotes. -/
def quoteChar (c : Char) : List Char :=
  if c == '"' then ['\\', '"']
  else if c == '\\' then ['\\', '\\']
  else if isPrintable c then [c]
  else if c.toNat == 7 then ['\\', 'a']
  else if c.toNat == 8 then ['\\', 'b']
  else if c.toNat == 12 then ['\\', 'f']
  else if c.toNat == 10 then ['\\', 'n']
  else if c.toNat == 13 then ['\\', 'r']
  else if c.toNat == 9 then ['\\', 't']
  else if c.toNat == 11 then ['\\', 'v']
  else if c.toNat < 0x20 || c.toNat == 0x7F then '\\' :: 'x' :: hexDigits 2 c.toNat
  else if c.toNat < 0x10000 then '\\' :: 'u' :: hexDigits 4 c.toNat
  else '\\' :: 'U' :: hexDigits 8 c.toNat

/-- A character between single quotes. -/
def quoteLetter (c : Char) : String :=
  let body := if c == '\'' then ['\\', '\''] else if c == '"' then ['"'] else quoteChar c
  String.ofList ('\'' :: (body ++ ['\'']))

/-- A piece of a byte string inside quotes. -/
def quotePiece : Bytes.Piece → List Char
  | .char c => quoteChar c
  | .stray b => '\\' :: 'x' :: hexByte b

/-- A byte string between double quotes. -/
def quote (bs : Bytes) : String :=
  String.ofList ('"' :: (bs.chars.flatMap quotePiece ++ ['"']))

/-- A text between double quotes. -/
def quoteString (s : String) : String :=
  quote (Bytes.ofString s)

end ModalGraph.Text
