import ModalGraph.Tensor.Basic
import ModalGraph.Wire.Field

/-!
# The binary form of a tensor

Four fields: the numbers of rows and columns, the code of the domain, and the labels as eight bytes each, packed into one field
or in fields of their own. Reading takes the last number of each field, puts all labels together in order, and skips every other
field. The numbers are read as 64 bits; whether they go with the labels is checked modulo 2 ^ 64.
-/

namespace ModalGraph.Tensor

/-- The number of rows. -/
def rowsField : Nat := 1

/-- The number of columns. -/
def colsField : Nat := 2

/-- The code of the domain. -/
def dtypeField : Nat := 3

/-- The labels. -/
def dataField : Nat := 4

/-- An integer as 64 bits. -/
def toWord (n : Int) : Nat :=
  (n % Nat.pow 2 64).toNat

/-- 64 bits as an integer with sign. -/
def ofWord (n : Nat) : Int :=
  if n < Nat.pow 2 63 then n else (n : Int) - Nat.pow 2 64

/-- A field with a number as its value. -/
def numberField (field n : Nat) : Bytes :=
  Wire.tag field .varint ++ Wire.varint n

/-- The eight bytes of a label. -/
def labelBytes (v : Label) : Bytes :=
  Wire.littleEndian 8 v.bits.toNat

/-- The binary form. Without labels there is no field for them. -/
def encode (t : Tensor) : Bytes :=
  numberField rowsField (toWord t.rows) ++ numberField colsField (toWord t.cols) ++
    numberField dtypeField t.dtype.code ++
    if t.data.isEmpty then []
    else Wire.tag dataField .bytes ++ Wire.lengthPrefixed (t.data.toList.flatMap labelBytes)

/-- What has been read of a tensor so far; the labels stand in reverse. -/
structure Draft where
  rows : Nat := 0
  cols : Nat := 0
  dtype : Nat := 0
  labels : List Label := []
deriving Repr

/-- The label of eight bytes. -/
def readLabel (bs : Bytes) : Except WireFault (Label × Bytes) := do
  let (n, rest) ← Wire.readFixed64 bs
  return (⟨n.toUInt64⟩, rest)

/-- Packed labels, put in front of those that were read before. -/
def readPacked (labels : List Label) (fuel : Nat) (bs : Bytes) : Except WireFault (List Label) :=
  match fuel, bs with
  | _, [] => .ok labels
  | 0, _ => .error .truncated
  | fuel + 1, bs => do
    let (v, rest) ← readLabel bs
    readPacked (v :: labels) fuel rest

/-- Reads the value of one field into a draft. -/
def readField (d : Draft) (number : Nat) (type : Wire.WireType) (bs : Bytes) : Except WireFault (Draft × Bytes) := do
  if number = rowsField ∧ type = .varint then
    let (n, rest) ← Wire.readVarint bs
    return ({ d with rows := n }, rest)
  else if number = colsField ∧ type = .varint then
    let (n, rest) ← Wire.readVarint bs
    return ({ d with cols := n }, rest)
  else if number = dtypeField ∧ type = .varint then
    let (n, rest) ← Wire.readVarint bs
    return ({ d with dtype := n }, rest)
  else if number = dataField ∧ type = .bytes then
    let (packed, rest) ← Wire.readBytes bs
    let labels ← readPacked d.labels packed.length packed
    return ({ d with labels := labels }, rest)
  else if number = dataField ∧ type = .fixed64 then
    let (v, rest) ← readLabel bs
    return ({ d with labels := v :: d.labels }, rest)
  else
    let rest ← Wire.skipValue number type bs
    return (d, rest)

/-- Reads fields until no byte is left. Every field takes at least one byte, so as much fuel as there are bytes suffices. -/
def readFields (d : Draft) (fuel : Nat) (bs : Bytes) : Except Failure Draft :=
  match fuel, bs with
  | _, [] => .ok d
  | 0, _ => .error (.wire none .truncated)
  | fuel + 1, bs =>
    match Wire.readTag bs with
    | .error f => .error (.wire none f)
    | .ok ((number, type), rest) =>
      match readField d number type rest with
      | .error f => .error (.wire (some number) f)
      | .ok (d, rest) => readFields d fuel rest

/-- The tensor of a draft, if its numbers go with its labels. -/
def Draft.tensor (d : Draft) : Except Failure Tensor :=
  if d.labels.length ≠ d.rows * d.cols % Nat.pow 2 64 then
    .error (.shapeIn "decode" (.valueCount d.labels.length d.rows d.cols))
  else
    match DType.ofCode? d.dtype with
    | none => .error (.unknownDomainCode d.dtype)
    | some dtype => .ok ⟨ofWord d.rows, ofWord d.cols, dtype, d.labels.reverse.toArray⟩

/-- Reads the binary form. -/
def decode (bs : Bytes) : Except Failure Tensor := do
  let d ← readFields {} bs.length bs
  d.tensor

end ModalGraph.Tensor
