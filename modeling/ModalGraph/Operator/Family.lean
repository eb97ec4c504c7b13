import ModalGraph.Tensor.Segment

/-!
# Operator families

Three families act on labels. A psi maps the labels of all nodes, of one graph or of a batch; a phi makes one message for every
edge; a sigma gathers messages into one label for every node. An operator may know how wide its result is before it runs
(`unknownWidth` if not). Labels may be missing: an operator that needs them gives up without them, and the evaluator refuses a
missing result.
-/

namespace ModalGraph

/-- The width of labels whose width is not known in advance. -/
def unknownWidth : Int := -1

namespace Width

/-- A result as wide as the labels it comes from. -/
def same (width : Int) : Int := width

/-- A result of a fixed width. -/
def fixed (n : Int) (_ : Int) : Int := n

/-- A result of unknown width. -/
def unknown (_ : Int) : Int := unknownWidth

/-- What a width rule says of labels of some width; of an unknown width it says nothing. -/
def result (rule : Int → Int) (width : Int) : Int :=
  if width = unknownWidth then unknownWidth else rule width

end Width

/-- A graph index, if there is one: the number of the graph of every node. -/
abbrev GraphIndex := Option (List Int)

/-- Labels that may be missing. -/
abbrev Labels := Option Tensor

/-- The labels that an operator cannot do without. -/
def Labels.required : Labels → Except Failure Tensor
  | some x => .ok x
  | none => .error .aborted

/-- An operator on the labels of all nodes. -/
structure Psi where
  /-- On one graph. -/
  single : Labels → Except Failure Labels
  /-- On a batch with a graph index. -/
  multiple : Labels → GraphIndex → Except Failure Labels
  /-- The width of the result. -/
  width : Int → Int
  /-- Whether using the operator makes the caller give up. -/
  interrupts : Bool := false

/-- An operator that makes one message for every edge, from the labels at its two ends and its own. -/
structure Phi where
  messages : (source edge target : Labels) → Except Failure Labels
  width : Int → Int

/-- An operator that gathers messages, each sent to a target, into one label for each of `nodes` nodes. -/
structure Sigma where
  aggregate : (messages : Labels) → (targets : List Int) → (nodes : Int) → (current : Labels) → Except Failure Labels
  width : Int → Int

namespace Psi

/-- The failure of a batched operator that is given no graph index. -/
def indexMissing (name : Bytes) : Failure :=
  .modeMismatch name true ""

/-- The failure of an operator without a variant for one graph. -/
def singleMissing (name : Bytes) : Failure :=
  .modeMismatch name false "operator has no single-graph variant"

/-- The failure of an operator without a variant for batches. -/
def multipleMissing (name : Bytes) : Failure :=
  .modeMismatch name true "operator has no batched variant"

/-- An operator that does the same to every node whatever its graph. -/
def pointwise (width : Int → Int) (f : Labels → Except Failure Labels) : Psi where
  single := f
  multiple x index := if index.isNone then .error (indexMissing (Bytes.ofString "local")) else f x
  width := width

/-- A pointwise operator that never fails on labels that are there. -/
def total (width : Int → Int) (f : Tensor → Tensor) : Psi :=
  pointwise width fun x => (fun x => some (f x)) <$> x.required

/-- A pointwise operator whose result there may be no room for. -/
def stored (width : Int → Int) (f : Tensor → Option Tensor) : Psi :=
  pointwise width fun x => do
    let x ← x.required
    some <$> orAborted (f x)

/-- An operator given by its two variants, each of which may be missing. -/
def ofVariants (name : Bytes) (single? : Option (Labels → Except Failure Labels))
    (multiple? : Option (Labels → List Int → Except Failure Labels)) (width : Int → Int) : Psi where
  single x :=
    match single? with
    | none => .error (singleMissing name)
    | some f => f x
  multiple x index :=
    match multiple?, index with
    | none, _ => .error (multipleMissing name)
    | some _, none => .error (indexMissing name)
    | some f, some index => f x index
  width := width

/-- One row, given to each of the nodes with some labels. -/
def spreadOne (name : Bytes) (x : Labels) (pooled : Tensor) : Except Failure Labels :=
  if pooled.rows ≠ 1 then .error (.shape ⟨name, .pooledRows pooled.rows⟩)
  else do
    let x ← x.required
    some <$> pooled.repeatRows [x.rows]

/-- One row per graph, given to every node of the graph. -/
def spreadAll (name : Bytes) (counts : List Nat) (pooled : Tensor) : Except Failure Labels :=
  if pooled.rows ≠ counts.length then .error (.shape ⟨name, .pooledGraphs pooled.rows counts.length⟩)
  else some <$> pooled.repeatRows (counts.map Int.ofNat)

/-- An operator that pools the labels of a graph into one row and gives it to every node of the graph. -/
def pooling (name : Bytes) (single? : Option (Labels → Except Failure Tensor))
    (multiple? : Option (Labels → List Int → Except Failure Tensor)) (width : Int → Int) : Psi where
  single x :=
    match single? with
    | none => .error (singleMissing name)
    | some f => do
      let pooled ← f x
      spreadOne name x pooled
  multiple x index :=
    match multiple?, index with
    | none, _ => .error (multipleMissing name)
    | some _, none => .error (indexMissing name)
    | some f, some index => do
      let counts ← Tensor.segmentCounts index
      let pooled ← f x index
      spreadAll name counts pooled
  width := width

end Psi

end ModalGraph
