import ModalGraph.Failure.Basic

/-!
# Fields of the binary form

The binary form is a sequence of fields. A field has a number and a wire type, packed into one variable length integer, and a
value whose length follows from the type. A group is a sequence of fields between two markers. Readers take bytes off the front
and give back the rest; an unknown field is skipped by its wire type.
-/

namespace ModalGraph.Wire

/-! ## Variable length integers -/

/-- A natural in groups of seven bits, least significant first; every byte but the last has its high bit set. -/
def varint (n : Nat) : Bytes :=
  if n < 128 then [n.toUInt8] else (n % 128 + 128).toUInt8 :: varint (n / 128)

/-- Reads a variable length integer whose byte `place` comes next. Ten bytes hold 64 bits, so the tenth is 0 or 1. -/
def readVarintFrom (place : Nat) : Bytes → Except WireFault (Nat × Bytes)
  | [] => .error .truncated
  | b :: rest =>
    if 9 ≤ place then (if b.toNat < 2 then .ok (b.toNat, rest) else .error .overflow)
    else if b.toNat < 128 then .ok (b.toNat, rest)
    else do
      let (high, rest) ← readVarintFrom (place + 1) rest
      return (b.toNat - 128 + 128 * high, rest)

/-- Reads a variable length integer of up to 64 bits. -/
def readVarint (bs : Bytes) : Except WireFault (Nat × Bytes) :=
  readVarintFrom 0 bs

/-! ## Fixed length integers -/

/-- The `count` lowest bytes of a natural, least significant first. -/
def littleEndian : Nat → Nat → Bytes
  | 0, _ => []
  | count + 1, n => (n % 256).toUInt8 :: littleEndian count (n / 256)

/-- The natural of some bytes, least significant first. -/
def ofLittleEndian : Bytes → Nat
  | [] => 0
  | b :: rest => b.toNat + 256 * ofLittleEndian rest

/-- Takes `count` bytes off the front. -/
def take (count : Nat) (bs : Bytes) : Except WireFault (Bytes × Bytes) :=
  if bs.length < count then .error .truncated else .ok (bs.take count, bs.drop count)

/-- Reads a number of eight bytes. -/
def readFixed64 (bs : Bytes) : Except WireFault (Nat × Bytes) := do
  let (v, rest) ← take 8 bs
  return (ofLittleEndian v, rest)

/-- Bytes after their length. -/
def lengthPrefixed (bs : Bytes) : Bytes :=
  varint bs.length ++ bs

/-- Reads bytes after their length. -/
def readBytes (bs : Bytes) : Except WireFault (Bytes × Bytes) := do
  let (n, rest) ← readVarint bs
  take n rest

/-! ## Tags -/

/-- How the value of a field is written. -/
inductive WireType where
  | varint
  | fixed64
  | bytes
  | startGroup
  | endGroup
  | fixed32
  | reserved
deriving DecidableEq, Repr

/-- The wire type of a code of three bits. -/
def WireType.ofCode : Nat → WireType
  | 0 => .varint
  | 1 => .fixed64
  | 2 => .bytes
  | 3 => .startGroup
  | 4 => .endGroup
  | 5 => .fixed32
  | _ => .reserved

/-- The code of a wire type. -/
def WireType.code : WireType → Nat
  | .varint => 0
  | .fixed64 => 1
  | .bytes => 2
  | .startGroup => 3
  | .endGroup => 4
  | .fixed32 => 5
  | .reserved => 7

/-- The tag of a field. -/
def tag (number : Nat) (type : WireType) : Bytes :=
  varint (number * 8 + type.code)

/-- The greatest field number that a tag may carry. -/
def maxFieldNumber : Nat := Nat.pow 2 31 - 1

/-- Reads a tag. -/
def readTag (bs : Bytes) : Except WireFault ((Nat × WireType) × Bytes) := do
  let (v, rest) ← readVarint bs
  let number := v / 8
  if number = 0 ∨ maxFieldNumber < number then throw .fieldNumber
  return ((number, WireType.ofCode (v % 8)), rest)

/-! ## Skipping -/

/-- The number of groups that may be open inside a group. -/
def maxDepth : Nat := 10001

/-- Skips the fields of group `number` up to and including its end marker. `depth` more groups may be opened. Every field has
a tag of at least one byte, so as much fuel as there are bytes suffices. -/
def skipGroup (fuel depth number : Nat) (bs : Bytes) : Except WireFault Bytes :=
  match fuel with
  | 0 => .error .truncated
  | fuel + 1 => do
    let ((inner, type), rest) ← readTag bs
    match type with
    | .endGroup => if inner = number then return rest else throw .endGroup
    | .varint =>
      let (_, rest) ← readVarint rest
      skipGroup fuel depth number rest
    | .fixed64 =>
      let (_, rest) ← take 8 rest
      skipGroup fuel depth number rest
    | .bytes =>
      let (_, rest) ← readBytes rest
      skipGroup fuel depth number rest
    | .fixed32 =>
      let (_, rest) ← take 4 rest
      skipGroup fuel depth number rest
    | .startGroup =>
      if depth = 0 then throw .nesting
      let rest ← skipGroup fuel (depth - 1) inner rest
      skipGroup fuel depth number rest
    | .reserved => throw .reserved

/-- Skips the value of a field. -/
def skipValue (number : Nat) (type : WireType) (bs : Bytes) : Except WireFault Bytes :=
  match type with
  | .varint => Prod.snd <$> readVarint bs
  | .fixed64 => Prod.snd <$> take 8 bs
  | .bytes => Prod.snd <$> readBytes bs
  | .fixed32 => Prod.snd <$> take 4 bs
  | .startGroup => skipGroup (bs.length + 1) (maxDepth - 1) number bs
  | .endGroup => .error .endGroup
  | .reserved => .error .reserved

end ModalGraph.Wire
