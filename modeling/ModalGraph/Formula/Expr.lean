import ModalGraph.Formula.Token

/-!
# Formulas

A formula maps node labels to node labels. `Expr.key` writes a formula in a canonical spelling without white space except after
a binder word. `Expr.visit` lists the tags of a formula, parents first, leaving out what is below a tag it is told to skip.
`Expr.hole` stands for a part that is missing in a formula built by hand; formula text never yields it.
-/

namespace ModalGraph.Formula

/-- The way messages travel along edges: to the targets, or back to the sources. -/
inductive Direction where
  | forward
  | backward
deriving DecidableEq, Repr, Inhabited

/-- A formula. Every node keeps the place where its text starts. -/
inductive Expr where
  /-- A pointwise or pooling operator, with its argument. -/
  | atom (pos : Position) (name : Bytes) (arg : Option Bytes)
  /-- `left`, then `right` on its result. -/
  | seq (pos : Position) (left right : Expr)
  /-- Every child on the same labels, the results side by side. -/
  | par (pos : Position) (children : List Expr)
  /-- One step of message passing: messages by `phi`, gathered by `sigma`. -/
  | diamond (pos : Position) (direction : Direction) (phi : Option Bytes) (sigma : Bytes)
  /-- The least or greatest fixpoint of `body` in `var`, over the labels that `base` declares. -/
  | fix (pos : Position) (least : Bool) (var base : Bytes) (body : Expr)
  /-- The labels of an enclosing fixpoint. -/
  | var (pos : Position) (name : Bytes)
  /-- A missing part. -/
  | hole
deriving Repr, Inhabited

namespace Expr

/-- The place where a formula starts. -/
def pos : Expr → Position
  | .atom p _ _ => p
  | .seq p _ _ => p
  | .par p _ => p
  | .diamond p _ _ _ => p
  | .fix p _ _ _ _ => p
  | .var p _ => p
  | .hole => Position.none

/-- The tag of a formula's outermost construction. -/
def tag : Expr → String
  | .atom .. => "atom"
  | .seq .. => "seq"
  | .par .. => "par"
  | .diamond _ .forward _ _ => "right"
  | .diamond _ .backward _ _ => "left"
  | .fix .. => "fix"
  | .var .. => "var"
  | .hole => "nil"

/-- The canonical text of a diamond. -/
def diamondKey (direction : Direction) (phi : Option Bytes) (sigma : Bytes) : Bytes :=
  match direction with
  | .forward => Bytes.ascii '|' :: (phi.getD [] ++ Bytes.ascii '>' :: sigma)
  | .backward => Bytes.ascii '<' :: (phi.getD [] ++ Bytes.ascii '|' :: sigma)

/-- The word that opens a fixpoint. -/
def binderWord (least : Bool) : Bytes :=
  Bytes.ofString (if least then "mu" else "nu")

mutual

/-- The canonical text of a formula. -/
def key : Expr → Bytes
  | .atom _ name arg => bracketed name arg
  | .seq _ left right => Bytes.ascii '(' :: (left.key ++ Bytes.ascii ';' :: (right.key ++ [Bytes.ascii ')']))
  | .par _ children => Bytes.ascii '(' :: (keys children ++ [Bytes.ascii ')'])
  | .diamond _ direction phi sigma => diamondKey direction phi sigma
  | .fix _ least v base body =>
    binderWord least ++ Bytes.ascii ' ' :: (v ++ Bytes.ascii ',' :: (base ++ Bytes.ascii '.' :: body.key))
  | .var _ name => name
  | .hole => []

/-- The canonical texts of children, joined by the parallel sign. -/
def keys : List Expr → Bytes
  | [] => []
  | [e] => e.key
  | e :: f :: es => e.key ++ Bytes.ascii '|' :: Bytes.ascii '|' :: keys (f :: es)

end

mutual

/-- Whether a part of a formula is missing. -/
def hasHole : Expr → Bool
  | .seq _ left right => left.hasHole || right.hasHole
  | .par _ children => anyHole children
  | .fix _ _ _ _ body => body.hasHole
  | .hole => true
  | _ => false

/-- Whether one of several formulas has a missing part. -/
def anyHole : List Expr → Bool
  | [] => false
  | e :: es => e.hasHole || anyHole es

end

mutual

/-- The tags of a formula and its parts, parents first; what is below a tag in `skip` is left out. -/
def visit (skip : List String) : Expr → List String
  | .seq _ left right => "seq" :: if skip.contains "seq" then [] else left.visit skip ++ right.visit skip
  | .par _ children => "par" :: if skip.contains "par" then [] else visitAll skip children
  | .fix _ _ _ _ body => "fix" :: if skip.contains "fix" then [] else body.visit skip
  | .hole => []
  | e => [e.tag]

/-- The tags of several formulas in order. -/
def visitAll (skip : List String) : List Expr → List String
  | [] => []
  | e :: es => e.visit skip ++ visitAll skip es

end

mutual

/-- Whether two formulas are the same, and start at the same places. -/
def same : Expr → Expr → Bool
  | .atom p name arg, .atom p' name' arg' => p == p' && name == name' && arg == arg'
  | .seq p left right, .seq p' left' right' => p == p' && left.same left' && right.same right'
  | .par p children, .par p' children' => p == p' && allSame children children'
  | .diamond p direction phi sigma, .diamond p' direction' phi' sigma' =>
    p == p' && direction == direction' && phi == phi' && sigma == sigma'
  | .fix p least v base body, .fix p' least' v' base' body' =>
    p == p' && least == least' && v == v' && base == base' && body.same body'
  | .var p name, .var p' name' => p == p' && name == name'
  | .hole, .hole => true
  | _, _ => false

/-- Whether several formulas are the same, one by one. -/
def allSame : List Expr → List Expr → Bool
  | [], [] => true
  | e :: es, f :: fs => e.same f && allSame es fs
  | _, _ => false

end

mutual

theorem eq_of_same : ∀ {e f : Expr}, e.same f = true → e = f := by
  intro e f h
  cases e <;> cases f <;> simp only [same, Bool.and_eq_true, beq_iff_eq, Bool.false_eq_true] at h
  case atom.atom => rw [h.1.1, h.1.2, h.2]
  case seq.seq => rw [h.1.1, eq_of_same h.1.2, eq_of_same h.2]
  case par.par => rw [h.1, eq_of_allSame h.2]
  case diamond.diamond => rw [h.1.1.1, h.1.1.2, h.1.2, h.2]
  case fix.fix => rw [h.1.1.1.1, h.1.1.1.2, h.1.1.2, h.1.2, eq_of_same h.2]
  case var.var => rw [h.1, h.2]
  case hole.hole => rfl

theorem eq_of_allSame : ∀ {es fs : List Expr}, allSame es fs = true → es = fs := by
  intro es fs h
  cases es <;> cases fs <;> simp only [allSame, Bool.and_eq_true, Bool.false_eq_true] at h
  case nil.nil => rfl
  case cons.cons => rw [eq_of_same h.1, eq_of_allSame h.2]

end

end Expr

end ModalGraph.Formula
