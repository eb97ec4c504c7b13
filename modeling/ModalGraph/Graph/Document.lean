import ModalGraph.Graph.Basic
import ModalGraph.Label.Numeral
import ModalGraph.Text.Blank
import ModalGraph.Text.Json

/-!
# Graph documents

A graph is written as a JSON object with node labels `x`, edges `edges` and edge labels `e`; a text holds one such object or an
array of them. Member names may differ in case and unknown members do not matter. Of members with one name the last counts, and
a null inside leaves what is there: the value that an earlier member put at that place, or zero. A shorter array leaves the
places behind its end as they are, so that a longer one after it finds them again.
-/

namespace ModalGraph

/-- Places that hold values, of which the first ones are in use. -/
structure Slots (α : Type) where
  values : List α := []
  used : Nat := 0

namespace Slots

/-- The values in use. -/
def inUse {α : Type} (s : Slots α) : List α :=
  s.values.take s.used

/-- Items into places, each into what the place holds, or into `zero` where there is none. Places without an item stay. -/
def items? {α : Type} (read : α → Json → Option α) (zero : α) : List α → List Json → Option (List α)
  | olds, [] => some olds
  | [], j :: js => do
    let a ← read zero j
    let as ← items? read zero [] js
    return a :: as
  | old :: olds, j :: js => do
    let a ← read old j
    let as ← items? read zero olds js
    return a :: as

/-- An array into places. An empty one leaves no places. -/
def fill? {α : Type} (read : α → Json → Option α) (zero : α) (old : Slots α) (js : List Json) : Option (Slots α) :=
  if js.isEmpty then some {} else (items? read zero old.values js).map fun values => ⟨values, js.length⟩

end Slots

/-- A row of numbers. -/
abbrev Row := Slots Label

/-- A graph document. -/
structure Document where
  x : Option (Slots Row) := none
  edges : Slots (Int × Int) := {}
  e : Option (Slots Row) := none

namespace Document

/-- A number into a place that holds `old`. -/
def number? (old : Label) : Json → Option Label
  | .null => some old
  | .num spelling => Numeral.decimal? spelling.toList
  | _ => none

/-- A whole number into a place that holds `old`. -/
def int? (old : Int) : Json → Option Int
  | .null => some old
  | .num spelling => Numeral.int64? spelling.toList
  | _ => none

/-- A row of numbers into a place that holds `old`. -/
def row? (old : Row) : Json → Option Row
  | .null => some {}
  | .arr js => old.fill? number? Label.zero js
  | _ => none

/-- Rows of numbers, if they are there. -/
def rows? (old : Option (Slots Row)) : Json → Option (Option (Slots Row))
  | .null => some none
  | .arr js => some <$> (old.getD {}).fill? row? {} js
  | _ => none

/-- The labels of rows. -/
def labelRows (rows : Slots Row) : List (List Label) :=
  rows.inUse.map Slots.inUse

/-- The two ends of an edge: ends that are missing are zero, further items are dropped but must be values. -/
def edge? (old : Int × Int) : Json → Option (Int × Int)
  | .null => some old
  | .arr [] => some (0, 0)
  | .arr [s] => do
    let s ← int? old.1 s
    return (s, 0)
  | .arr (s :: t :: _) => do
    let s ← int? old.1 s
    let t ← int? old.2 t
    return (s, t)
  | _ => none

/-- Edges. -/
def edges? (old : Slots (Int × Int)) : Json → Option (Slots (Int × Int))
  | .null => some {}
  | .arr js => old.fill? edge? (0, 0) js
  | _ => none

/-- A document with one more member. -/
def member? (d : Document) (m : String × Json) : Option Document :=
  if Json.sameName m.1 "x" then do return { d with x := ← rows? d.x m.2 }
  else if Json.sameName m.1 "edges" then do return { d with edges := ← edges? d.edges m.2 }
  else if Json.sameName m.1 "e" then do return { d with e := ← rows? d.e m.2 }
  else some d

/-- The document of a value. -/
def ofJson? : Json → Option Document
  | .null => some {}
  | .obj members => members.foldlM member? {}
  | _ => none

/-- The documents of a value: one, or an array of them. -/
def listOf? : Json → Option (List Document)
  | .arr js => js.mapM ofJson?
  | j => (ofJson? j).map fun d => [d]

/-- The labels of some rows, if they are there. -/
def labels? (place : String) (dtype : DType) : Option (Slots Row) → Except Failure (Option Tensor)
  | none => .ok none
  | some rows => inPlace place (some <$> Tensor.fromRows (labelRows rows) dtype)

/-- The graph of a document. -/
def graph (d : Document) (nodeType edgeType : DType) : Except Failure Graph :=
  match d.x with
  | none => .error .noNodeLabels
  | some rows => do
    let x ← inPlace "node labels" (Tensor.fromRows (labelRows rows) nodeType)
    let e ← labels? "edge labels" edgeType d.e
    let g : Graph := ⟨some x, d.edges.inUse, e⟩
    let _ ← g.validate
    return g

/-- The graphs of some documents, numbered from `i`. -/
def graphsFrom (nodeType edgeType : DType) (i : Nat) : List Document → Except Failure (List Graph)
  | [] => .ok []
  | d :: ds => do
    let g ← inPlace s!"graph {i}" (d.graph nodeType edgeType)
    let gs ← graphsFrom nodeType edgeType (i + 1) ds
    return g :: gs

end Document

/-- The graphs of a value, if it could be read at all. -/
def Graph.ofJson (j : Option Json) (nodeType edgeType : DType) : Except Failure (List Graph) :=
  match j.bind Document.listOf? with
  | none => .error .invalidDocument
  | some [] => .error .emptyBatch
  | some ds => Document.graphsFrom nodeType edgeType 0 ds

/-- The graphs of a text. -/
def Graph.decode (text : String) (nodeType edgeType : DType) : Except Failure (List Graph) :=
  let cs := text.toList.dropWhile Text.isBlank
  Graph.ofJson (Json.parse? (String.ofList (cs.reverse.dropWhile Text.isBlank).reverse)) nodeType edgeType

end ModalGraph
