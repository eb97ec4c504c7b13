import ModalGraph.Failure.Basic
import ModalGraph.Label.Basic
import ModalGraph.Text.Blank

/-!
# Label domains

A label is stored as a number whatever its domain is; the domain says which numbers occur. `DType.cast` takes a number into a
domain: truth values become 0 and 1, whole numbers lose their fraction, bytes are taken modulo 256, and single precision is
rounded to.
-/

namespace ModalGraph

/-- The domain of labels, in the order of the codes. -/
inductive DType where
  | float64
  | float32
  | int64
  | int32
  | uint8
  | bool
deriving DecidableEq, Repr, Inhabited

namespace DType

/-- All domains; the place of a domain is its code. -/
def all : List DType :=
  [.float64, .float32, .int64, .int32, .uint8, .bool]

/-- The code of a domain. -/
def code : DType → Nat
  | .float64 => 0
  | .float32 => 1
  | .int64 => 2
  | .int32 => 3
  | .uint8 => 4
  | .bool => 5

/-- The domain of a code. -/
def ofCode? (n : Nat) : Option DType :=
  all[n]?

/-- The name of a domain. -/
def name : DType → String
  | .float64 => "float64"
  | .float32 => "float32"
  | .int64 => "int64"
  | .int32 => "int32"
  | .uint8 => "uint8"
  | .bool => "bool"

/-- The name that goes with a code of one byte; a code of no domain is shown as a number. -/
def nameOfCode (n : Nat) : String :=
  match ofCode? (n % 256) with
  | some d => d.name
  | none => s!"dtype({n % 256})"

/-- The domain of a name in letters of any case, with white space around it allowed. -/
def parse (text : Bytes) : Except Failure DType :=
  let word := Text.lower (Text.trim text)
  match all.find? fun d => Bytes.ofString d.name == word with
  | some d => .ok d
  | none => .error (.unknownDomain text)

/-- A number taken into a domain. -/
def cast : DType → Label → Label
  | .bool, v => Label.ofBool !v.isZero
  | .uint8, v => Label.ofInt (v.toSigned 64 % 256)
  | .int32, v => Label.ofInt (v.toSigned 32)
  | .int64, v => v.truncate
  | .float32, v => v.toSingle
  | .float64, v => v

/-- Whether the labels of a domain are whole numbers. -/
def isIntegral : DType → Bool
  | .bool => true
  | .uint8 => true
  | .int32 => true
  | .int64 => true
  | .float32 => false
  | .float64 => false

/-- The domain of labels put together from several: the common one, or `float64` if there is none. -/
def join (d : DType) (ds : List DType) : DType :=
  if ds.all (· == d) then d else .float64

end DType

end ModalGraph
