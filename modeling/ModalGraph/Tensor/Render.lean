import ModalGraph.Label.Decimal
import ModalGraph.Tensor.Basic
import ModalGraph.Text.Json

/-!
# Tensors as JSON

A tensor is shown as an array of rows. A label is shown by what it means in its domain: a truth value, a whole number, or the
shortest decimal that reads back. Labels that are no numbers are null.
-/

namespace ModalGraph

/-- A label of a domain as a JSON value. -/
def Label.toJson (dtype : DType) (v : Label) : Json :=
  if dtype = .bool then .bool !v.isZero
  else if dtype.isIntegral then .int (v.toSigned 64)
  else if v.isNaN || v.isInfinite then .null
  else .num v.text

/-- A tensor as an array of rows. -/
def Tensor.toJson (t : Tensor) : Json :=
  .arr (t.rowList.map fun r => .arr (r.map (Label.toJson t.dtype)))

end ModalGraph
