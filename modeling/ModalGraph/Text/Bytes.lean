/-!
# Byte strings

Formula text, operator names and cache keys are byte strings: a source may hold bytes that are not UTF-8, and positions count
bytes. `Bytes.ofString` writes characters as UTF-8, `Bytes.chars` reads them back one by one and keeps every byte that starts
no well-formed sequence as a stray byte, so nothing of a byte string is lost. `Bytes.toText` shows a stray byte as U+FFFD.
-/

namespace ModalGraph

/-- A byte string. -/
abbrev Bytes := List UInt8

namespace Bytes

/-- The UTF-8 bytes of a text. -/
def ofString (s : String) : Bytes :=
  s.toList.flatMap String.utf8EncodeChar

/-- The UTF-8 bytes of one character. -/
def ofChar (c : Char) : Bytes :=
  String.utf8EncodeChar c

/-- The byte of an ASCII character. -/
def ascii (c : Char) : UInt8 :=
  c.toNat.toUInt8

/-- A byte that continues a UTF-8 sequence. -/
def isContinuation (b : UInt8) : Bool :=
  b &&& 0xC0 == 0x80

/-- The six payload bits of a continuation byte. -/
def payload (b : UInt8) : Nat :=
  (b &&& 0x3F).toNat

/-- A code point that a UTF-8 sequence of `width` bytes may stand for: not one that fits in fewer bytes, not a surrogate,
not beyond U+10FFFF. -/
def isCodePoint (width n : Nat) : Bool :=
  let least := if width = 2 then 0x80 else if width = 3 then 0x800 else 0x10000
  least ≤ n && n ≤ 0x10FFFF && !(0xD800 ≤ n && n ≤ 0xDFFF)

/-- The first character of a byte string and the bytes after it, if it starts with a well-formed UTF-8 sequence. -/
def first? : Bytes → Option (Char × Bytes)
  | [] => none
  | b :: rest =>
    if b < 0x80 then some (Char.ofNat b.toNat, rest)
    else if b &&& 0xE0 == 0xC0 then
      match rest with
      | c1 :: r =>
        let n := (b &&& 0x1F).toNat * 64 + payload c1
        if isContinuation c1 && isCodePoint 2 n then some (Char.ofNat n, r) else none
      | _ => none
    else if b &&& 0xF0 == 0xE0 then
      match rest with
      | c1 :: c2 :: r =>
        let n := ((b &&& 0x0F).toNat * 64 + payload c1) * 64 + payload c2
        if isContinuation c1 && isContinuation c2 && isCodePoint 3 n then some (Char.ofNat n, r) else none
      | _ => none
    else if b &&& 0xF8 == 0xF0 then
      match rest with
      | c1 :: c2 :: c3 :: r =>
        let n := (((b &&& 0x07).toNat * 64 + payload c1) * 64 + payload c2) * 64 + payload c3
        if isContinuation c1 && isContinuation c2 && isContinuation c3 && isCodePoint 4 n then some (Char.ofNat n, r)
        else none
      | _ => none
    else none

/-- Reading a character consumes at least one byte. -/
theorem length_lt_of_first? {bs rest : Bytes} {c : Char} (h : first? bs = some (c, rest)) : rest.length < bs.length := by
  unfold first? at h
  repeat' split at h
  all_goals simp_all
  all_goals grind

/-- A piece of a byte string: a character, or a byte that belongs to none. -/
inductive Piece where
  | char (c : Char)
  | stray (b : UInt8)
deriving DecidableEq, Repr

/-- The bytes a piece stands for. -/
def Piece.bytes : Piece → Bytes
  | .char c => ofChar c
  | .stray b => [b]

/-- The characters of a byte string, with the bytes that belong to none kept in place. -/
def chars (bs : Bytes) : List Piece :=
  match h : first? bs with
  | some (c, rest) =>
    have := length_lt_of_first? h
    .char c :: chars rest
  | none =>
    match bs with
    | [] => []
    | b :: rest => .stray b :: chars rest
termination_by bs.length

/-- The text of a byte string, a stray byte shown as the replacement character. -/
def toText (bs : Bytes) : String :=
  String.ofList ((chars bs).map fun
    | .char c => c
    | .stray _ => Char.ofNat 0xFFFD)

/-- Bytewise lexicographic order. -/
def le : Bytes → Bytes → Bool
  | [], _ => true
  | _ :: _, [] => false
  | a :: as, b :: bs => a < b || (a == b && le as bs)

/-- The bytes before the first `sep`, and the bytes after it if there is one. -/
def cut (sep : UInt8) : Bytes → Bytes × Option Bytes
  | [] => ([], none)
  | b :: rest =>
    if b == sep then ([], some rest)
    else
      let (before, after) := cut sep rest
      (b :: before, after)

/-- The parts joined with `sep` between neighbours. -/
def join (sep : Bytes) : List Bytes → Bytes
  | [] => []
  | [p] => p
  | p :: ps => p ++ sep ++ join sep ps

end Bytes

end ModalGraph
