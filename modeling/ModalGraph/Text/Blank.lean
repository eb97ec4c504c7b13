import ModalGraph.Text.Bytes

/-!
# Blank space and letter case

What may stand around a name or a number that is given as text: the white space of Unicode. Names of label domains and of the
truth values are read without regard to case; two letters outside ASCII have an ASCII letter as their lower case. Where the
likeness of a word to such a name is measured, the number of bytes counts as well.
-/

namespace ModalGraph.Text

/-- White space. -/
def isBlank (c : Char) : Bool :=
  let n := c.toNat
  (9 ≤ n && n ≤ 13) || n == 0x20 || n == 0x85 || n == 0xA0 || n == 0x1680 || (0x2000 ≤ n && n ≤ 0x200A) ||
    n == 0x2028 || n == 0x2029 || n == 0x202F || n == 0x205F || n == 0x3000

/-- White space as a piece of a byte string; a stray byte is none. -/
def isBlankPiece : Bytes.Piece → Bool
  | .char c => isBlank c
  | .stray _ => false

/-- A list without the blank pieces at its two ends. -/
def trimPieces (ps : List Bytes.Piece) : List Bytes.Piece :=
  ((ps.dropWhile isBlankPiece).reverse.dropWhile isBlankPiece).reverse

/-- A byte string without the white space at its two ends. -/
def trim (bs : Bytes) : Bytes :=
  (trimPieces bs.chars).flatMap Bytes.Piece.bytes

/-- A text without the white space at its two ends. -/
def trimString (s : String) : String :=
  (trim (Bytes.ofString s)).toText

/-- The letters outside ASCII whose lower case has another number of bytes, with their lower case. -/
def shiftedLetters : List (Nat × Nat) :=
  [(0x130, 0x69), (0x23A, 0x2C65), (0x23E, 0x2C66), (0x1E9E, 0xDF), (0x2126, 0x3C9), (0x212A, 0x6B), (0x212B, 0xE5),
   (0x2C62, 0x26B), (0x2C64, 0x27D), (0x2C6D, 0x251), (0x2C6E, 0x271), (0x2C6F, 0x250), (0x2C70, 0x252), (0x2C7E, 0x23F),
   (0x2C7F, 0x240), (0xA78D, 0x265), (0xA7AA, 0x266), (0xA7AB, 0x25C), (0xA7AC, 0x261), (0xA7AD, 0x26C), (0xA7AE, 0x26A),
   (0xA7B0, 0x29E), (0xA7B1, 0x287), (0xA7B2, 0x29D), (0xA7C5, 0x282), (0xA7CB, 0x264), (0xA7DC, 0x19B)]

/-- The lower case of a character, as far as it is an ASCII letter or takes another number of bytes. -/
def lowerChar (c : Char) : Char :=
  match shiftedLetters.lookup c.toNat with
  | some n => Char.ofNat n
  | none => c.toLower

/-- A byte string in lower case, as far as comparison of its bytes with an ASCII name can tell. -/
def lower (bs : Bytes) : Bytes :=
  bs.chars.flatMap fun
    | .char c => Bytes.ofChar (lowerChar c)
    | .stray b => [b]

end ModalGraph.Text
