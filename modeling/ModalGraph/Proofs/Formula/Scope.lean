import ModalGraph.Proofs.Formula.Grammar
import ModalGraph.Proofs.Formula.Name

/-!
# Variables and their binders

A part of a formula stands below fixpoints (`Expr.Part`), and a name belongs to the innermost of them that binds it (`Innermost`). The
parser keeps the names of the binders that it is below as its scope. `Reading.Comes` are the calls that a call of the parser makes, with
the binders between them, so that the scope of a call consists of their names (`Reading.Comes.scope_eq`). Every variable in what the
parser gives comes from a name that it read below the binders around that variable (`parse_named`), and one of these binds it
(`parse_bound`).
-/

namespace ModalGraph.Formula

/-! ## Parts of a formula -/

/-- A fixpoint around a part of a formula: where it starts, its kind, its variable and its base. -/
structure Enclosing where
  pos : Position
  least : Bool
  var : Bytes
  base : Bytes

/-- A formula has a part below some fixpoints, the innermost one first. -/
inductive Expr.Part : Expr → List Enclosing → Expr → Prop where
  | here {e : Expr} : Part e [] e
  | left {pos : Position} {l r x : Expr} {fs : List Enclosing} : Part l fs x → Part (.seq pos l r) fs x
  | right {pos : Position} {l r x : Expr} {fs : List Enclosing} : Part r fs x → Part (.seq pos l r) fs x
  | child {pos : Position} {children : List Expr} {e x : Expr} {fs : List Enclosing} :
      e ∈ children → Part e fs x → Part (.par pos children) fs x
  | body {pos : Position} {least : Bool} {v base : Bytes} {b x : Expr} {fs : List Enclosing} :
      Part b fs x → Part (.fix pos least v base b) (fs ++ [⟨pos, least, v, base⟩]) x

/-- The innermost of some fixpoints that binds a name, with those around it. -/
inductive Innermost (name : Bytes) : List Enclosing → Enclosing → List Enclosing → Prop where
  | here {f : Enclosing} {outer : List Enclosing} : f.var = name → Innermost name (f :: outer) f outer
  | outside {f g : Enclosing} {fs outer : List Enclosing} : f.var ≠ name → Innermost name fs g outer → Innermost name (f :: fs) g outer

theorem exists_innermost {name : Bytes} {fs : List Enclosing} (h : name ∈ fs.map Enclosing.var) : ∃ g outer, Innermost name fs g outer := by
  induction fs with
  | nil => cases h
  | cons f fs ih =>
    by_cases hf : f.var = name
    · exact ⟨f, fs, .here hf⟩
    · obtain ⟨g, outer, hg⟩ := ih ((List.mem_cons.mp h).resolve_left (Ne.symm hf))
      exact ⟨g, outer, .outside hf hg⟩

theorem wellFormed_of_mem {es : List Expr} {scope : List Bytes} (h : Expr.AllWellFormed scope es) {e : Expr} (he : e ∈ es) :
    e.WellFormed scope := by
  induction es with
  | nil => cases he
  | cons e' es ih =>
    rcases List.mem_cons.mp he with rfl | he
    · exact h.1
    · exact ih h.2 he

/-- A part of a well-formed formula is well-formed below the binders around it. -/
theorem Expr.Part.wellFormed {e x : Expr} {fs : List Enclosing} {scope : List Bytes} (h : e.Part fs x) (he : e.WellFormed scope) :
    x.WellFormed (fs.map Enclosing.var ++ scope) := by
  induction h generalizing scope with
  | here => exact he
  | left _ ih => exact ih he.1
  | right _ ih => exact ih he.2
  | child hmem _ ih => exact ih (wellFormed_of_mem he.2 hmem)
  | body _ ih =>
    rw [List.map_append, List.append_assoc]
    exact ih he.2.2

/-! ## Calls of the parser -/

/-- The functions that the parser consists of. -/
inductive Phrase where
  | expr
  | parTail
  | seq
  | seqTail
  | unary

/-- A call of one of the functions of the parser, without what stands to the left of a tail. -/
structure Reading where
  phrase : Phrase
  fuel : Nat
  scope : List Bytes
  tokens : List Token

/-- A call of the parser comes to another one, below the binders that it reads in between, the innermost one first. -/
inductive Reading.Comes : Reading → List Enclosing → Reading → Prop where
  | here {k : Reading} : Comes k [] k
  | first {fuel : Nat} {scope : List Bytes} {ts : List Token} {fs : List Enclosing} {k : Reading} :
      Comes ⟨.seq, fuel, scope, ts⟩ fs k → Comes ⟨.expr, fuel + 1, scope, ts⟩ fs k
  | others {fuel : Nat} {scope : List Bytes} {ts rest : List Token} {e : Expr} {fs : List Enclosing} {k : Reading} :
      seq fuel scope ts = .ok (e, rest) → Comes ⟨.parTail, fuel, scope, rest⟩ fs k → Comes ⟨.expr, fuel + 1, scope, ts⟩ fs k
  | part {fuel : Nat} {scope : List Bytes} {ts : List Token} {fs : List Enclosing} {k : Reading} :
      (peek ts).kind = .parallel → Comes ⟨.seq, fuel, scope, advance ts⟩ fs k → Comes ⟨.parTail, fuel + 1, scope, ts⟩ fs k
  | parts {fuel : Nat} {scope : List Bytes} {ts rest : List Token} {e : Expr} {fs : List Enclosing} {k : Reading} :
      (peek ts).kind = .parallel → seq fuel scope (advance ts) = .ok (e, rest) → Comes ⟨.parTail, fuel, scope, rest⟩ fs k →
        Comes ⟨.parTail, fuel + 1, scope, ts⟩ fs k
  | start {fuel : Nat} {scope : List Bytes} {ts : List Token} {fs : List Enclosing} {k : Reading} :
      Comes ⟨.unary, fuel, scope, ts⟩ fs k → Comes ⟨.seq, fuel + 1, scope, ts⟩ fs k
  | tail {fuel : Nat} {scope : List Bytes} {ts rest : List Token} {e : Expr} {fs : List Enclosing} {k : Reading} :
      unary fuel scope ts = .ok (e, rest) → Comes ⟨.seqTail, fuel, scope, rest⟩ fs k → Comes ⟨.seq, fuel + 1, scope, ts⟩ fs k
  | next {fuel : Nat} {scope : List Bytes} {ts : List Token} {fs : List Enclosing} {k : Reading} :
      (peek ts).kind = .semicolon → Comes ⟨.unary, fuel, scope, advance ts⟩ fs k → Comes ⟨.seqTail, fuel + 1, scope, ts⟩ fs k
  | nexts {fuel : Nat} {scope : List Bytes} {ts rest : List Token} {e : Expr} {fs : List Enclosing} {k : Reading} :
      (peek ts).kind = .semicolon → unary fuel scope (advance ts) = .ok (e, rest) → Comes ⟨.seqTail, fuel, scope, rest⟩ fs k →
        Comes ⟨.seqTail, fuel + 1, scope, ts⟩ fs k
  | group {fuel : Nat} {scope : List Bytes} {ts : List Token} {fs : List Enclosing} {k : Reading} :
      (peek ts).kind = .openParen → (peek (advance ts)).kind ≠ .closeParen → Comes ⟨.expr, fuel, scope, advance ts⟩ fs k →
        Comes ⟨.unary, fuel + 1, scope, ts⟩ fs k
  | body {fuel : Nat} {scope : List Bytes} {ts rest : List Token} {least : Bool} {v base : Bytes} {fs : List Enclosing} {k : Reading} :
      (peek ts).kind = binderKind least → binderHead (advance ts) = .ok ((v, base), rest) →
        Comes ⟨.unary, fuel, v :: scope, rest⟩ fs k → Comes ⟨.unary, fuel + 1, scope, ts⟩ (fs ++ [⟨(peek ts).pos, least, v, base⟩]) k

/-- The scope of a call consists of the names of the binders that were read on the way to it, and of the scope before. -/
theorem Reading.Comes.scope_eq {k k' : Reading} {fs : List Enclosing} (h : k.Comes fs k') : k'.scope = fs.map Enclosing.var ++ k.scope := by
  induction h with
  | here => rfl
  | first _ ih | others _ _ ih | part _ _ ih | parts _ _ _ ih | start _ ih | tail _ _ ih | next _ _ ih | nexts _ _ _ ih
  | group _ _ _ ih => exact ih
  | body _ _ _ ih =>
    rw [ih, List.map_append, List.append_assoc]
    rfl

/-- A call comes, below some binders, to a name that it makes a part of a formula of, in the scope of these binders. -/
def Reading.Names (k : Reading) (fs : List Enclosing) (x : Expr) : Prop :=
  ∃ fuel ts, k.Comes fs ⟨.unary, fuel, fs.map Enclosing.var ++ k.scope, ts⟩ ∧ (peek ts).kind = .identifier ∧
    nameExpr (fs.map Enclosing.var ++ k.scope) (peek ts) = x

/-! ## Variables are names that were read -/

namespace ScopeAux

/-- Where the variables in what the functions of the parser read come from, with some fuel. -/
structure Named (fuel : Nat) : Prop where
  expr : ∀ {scope ts e rest fs pos name}, Formula.expr fuel scope ts = .ok (e, rest) → e.Part fs (.var pos name) →
    Reading.Names ⟨.expr, fuel, scope, ts⟩ fs (.var pos name)
  parTail : ∀ {scope ts es rest e fs pos name}, Formula.parTail fuel scope ts = .ok (es, rest) → e ∈ es → e.Part fs (.var pos name) →
    Reading.Names ⟨.parTail, fuel, scope, ts⟩ fs (.var pos name)
  seq : ∀ {scope ts e rest fs pos name}, Formula.seq fuel scope ts = .ok (e, rest) → e.Part fs (.var pos name) →
    Reading.Names ⟨.seq, fuel, scope, ts⟩ fs (.var pos name)
  seqTail : ∀ {scope p left ts e rest fs pos name}, Formula.seqTail fuel scope p left ts = .ok (e, rest) →
    e.Part fs (.var pos name) → left.Part fs (.var pos name) ∨ Reading.Names ⟨.seqTail, fuel, scope, ts⟩ fs (.var pos name)
  unary : ∀ {scope ts e rest fs pos name}, Formula.unary fuel scope ts = .ok (e, rest) → e.Part fs (.var pos name) →
    Reading.Names ⟨.unary, fuel, scope, ts⟩ fs (.var pos name)

theorem named_zero : Named 0 where
  expr h := by rw [Formula.expr] at h; cases h
  parTail h := by rw [Formula.parTail] at h; cases h
  seq h := by rw [Formula.seq] at h; cases h
  seqTail h := by rw [Formula.seqTail] at h; cases h
  unary h := by rw [Formula.unary] at h; cases h

section

variable {fuel : Nat} {scope : List Bytes} {ts rest : List Token} {e : Expr} {fs : List Enclosing} {pos : Position} {name : Bytes}

theorem expr_named (ih : Named fuel) (h : Formula.expr (fuel + 1) scope ts = .ok (e, rest)) (hx : e.Part fs (.var pos name)) :
    Reading.Names ⟨.expr, fuel + 1, scope, ts⟩ fs (.var pos name) := by
  rw [Formula.expr] at h
  obtain ⟨⟨first, rest₁⟩, hfirst, h⟩ := bind_ok h
  obtain ⟨⟨others, rest₂⟩, hothers, h⟩ := bind_ok h
  have inFirst : first.Part fs (.var pos name) → Reading.Names ⟨.expr, fuel + 1, scope, ts⟩ fs (.var pos name) := by
    intro hx
    obtain ⟨fuel', us, hcomes, hname⟩ := ih.seq hfirst hx
    exact ⟨fuel', us, .first hcomes, hname⟩
  dsimp only at h
  split at h
  · cases h
    exact inFirst hx
  · cases h
    cases hx with
    | child hmem hx =>
      rcases List.mem_cons.mp hmem with rfl | hmem
      · exact inFirst hx
      · obtain ⟨fuel', us, hcomes, hname⟩ := ih.parTail hothers hmem hx
        exact ⟨fuel', us, .others hfirst hcomes, hname⟩

theorem parTail_named (ih : Named fuel) {es : List Expr} (h : Formula.parTail (fuel + 1) scope ts = .ok (es, rest)) (he : e ∈ es)
    (hx : e.Part fs (.var pos name)) : Reading.Names ⟨.parTail, fuel + 1, scope, ts⟩ fs (.var pos name) := by
  rw [Formula.parTail] at h
  split at h
  · rename_i hk
    obtain ⟨⟨f, rest₁⟩, hf, h⟩ := bind_ok h
    obtain ⟨⟨more, rest₂⟩, hmore, h⟩ := bind_ok h
    cases h
    rcases List.mem_cons.mp he with rfl | he
    · obtain ⟨fuel', us, hcomes, hname⟩ := ih.seq hf hx
      exact ⟨fuel', us, .part hk hcomes, hname⟩
    · obtain ⟨fuel', us, hcomes, hname⟩ := ih.parTail hmore he hx
      exact ⟨fuel', us, .parts hk hf hcomes, hname⟩
  · cases h
    cases he

theorem seq_named (ih : Named fuel) (h : Formula.seq (fuel + 1) scope ts = .ok (e, rest)) (hx : e.Part fs (.var pos name)) :
    Reading.Names ⟨.seq, fuel + 1, scope, ts⟩ fs (.var pos name) := by
  rw [Formula.seq] at h
  obtain ⟨⟨first, rest₁⟩, hfirst, h⟩ := bind_ok h
  rcases ih.seqTail h hx with hx | ⟨fuel', us, hcomes, hname⟩
  · obtain ⟨fuel', us, hcomes, hname⟩ := ih.unary hfirst hx
    exact ⟨fuel', us, .start hcomes, hname⟩
  · exact ⟨fuel', us, .tail hfirst hcomes, hname⟩

theorem seqTail_named (ih : Named fuel) {p : Position} {left : Expr}
    (h : Formula.seqTail (fuel + 1) scope p left ts = .ok (e, rest)) (hx : e.Part fs (.var pos name)) :
    left.Part fs (.var pos name) ∨ Reading.Names ⟨.seqTail, fuel + 1, scope, ts⟩ fs (.var pos name) := by
  rw [Formula.seqTail] at h
  split at h
  · rename_i hk
    obtain ⟨⟨right, rest₁⟩, hright, h⟩ := bind_ok h
    rcases ih.seqTail h hx with hx | ⟨fuel', us, hcomes, hname⟩
    · cases hx with
      | left hx => exact .inl hx
      | right hx =>
        obtain ⟨fuel', us, hcomes, hname⟩ := ih.unary hright hx
        exact .inr ⟨fuel', us, .next hk hcomes, hname⟩
    · exact .inr ⟨fuel', us, .nexts hk hright hcomes, hname⟩
  · cases h
    exact .inl hx

/-- A binder after its word, whichever word it is. -/
theorem binder_named (ih : Named fuel) {least : Bool} (hk : (peek ts).kind = binderKind least)
    (h : (do
      let ((v, base), rest) ← binderHead (advance ts)
      let (body, rest) ← Formula.unary fuel (v :: scope) rest
      return (Expr.fix (peek ts).pos least v base body, rest)) = .ok (e, rest)) (hx : e.Part fs (.var pos name)) :
    Reading.Names ⟨.unary, fuel + 1, scope, ts⟩ fs (.var pos name) := by
  obtain ⟨⟨⟨v, base⟩, rest₁⟩, hhead, h⟩ := bind_ok h
  obtain ⟨⟨body, rest₂⟩, hbody, h⟩ := bind_ok h
  cases h
  cases hx with
  | @body _ _ _ _ _ _ fs hx =>
    obtain ⟨fuel', us, hcomes, hident, hname⟩ := ih.unary hbody hx
    have hscope : (fs ++ [(⟨(peek ts).pos, least, v, base⟩ : Enclosing)]).map Enclosing.var ++ scope =
        fs.map Enclosing.var ++ v :: scope := by
      rw [List.map_append, List.append_assoc]
      rfl
    refine ⟨fuel', us, ?_, hident, ?_⟩
    · rw [hscope]
      exact .body hk hhead hcomes
    · rw [hscope]
      exact hname

theorem unary_named (ih : Named fuel) (h : Formula.unary (fuel + 1) scope ts = .ok (e, rest)) (hx : e.Part fs (.var pos name)) :
    Reading.Names ⟨.unary, fuel + 1, scope, ts⟩ fs (.var pos name) := by
  rw [Formula.unary] at h
  dsimp only at h
  split at h
  case h_1 =>
    obtain ⟨s, -, -, rfl⟩ := GrammarAux.plainDiamond_ok h
    cases hx
  case h_2 =>
    obtain ⟨s, -, -, rfl⟩ := GrammarAux.plainDiamond_ok h
    cases hx
  case h_3 hk =>
    obtain ⟨us, phi, sigma, -, -, -, rfl⟩ := GrammarAux.diamondBody_ok .forward hk h
    cases hx
  case h_4 hk =>
    obtain ⟨us, phi, sigma, -, -, -, rfl⟩ := GrammarAux.diamondBody_ok .backward hk h
    cases hx
  case h_5 hk =>
    split at h
    · cases h
    · rename_i hopen
      obtain ⟨⟨e', rest₁⟩, he, h⟩ := bind_ok h
      dsimp only at h
      split at h
      · cases h
        obtain ⟨fuel', us, hcomes, hname⟩ := ih.expr he hx
        exact ⟨fuel', us, .group hk hopen hcomes, hname⟩
      · split at h
        · cases h
        · cases h
  case h_6 hk => exact binder_named ih (show _ = binderKind true from hk) h hx
  case h_7 hk => exact binder_named ih (show _ = binderKind false from hk) h hx
  case h_8 hk =>
    split at h
    · cases h
    · cases h
      -- The name is the variable itself, below no binder.
      have hself : fs = [] ∧ nameExpr scope (peek ts) = .var pos name := by
        generalize hmade : nameExpr scope (peek ts) = made at hx
        rw [nameExpr] at hmade
        split at hmade
        · subst hmade
          cases hx
          exact ⟨rfl, rfl⟩
        · subst hmade
          cases hx
      obtain ⟨rfl, hname⟩ := hself
      exact ⟨fuel + 1, ts, .here, hk, hname⟩
  case h_9 => cases h

end

theorem named (fuel : Nat) : Named fuel := by
  induction fuel with
  | zero => exact named_zero
  | succ fuel ih =>
    exact {
      expr := expr_named ih
      parTail := parTail_named ih
      seq := seq_named ih
      seqTail := seqTail_named ih
      unary := unary_named ih }

end ScopeAux

section

variable {src : Bytes} {e : Expr} {fs : List Enclosing} {pos : Position} {name : Bytes}

/-- A variable of a formula that was parsed comes from a name in its text, which the parser read in the scope of the binders around the
variable. -/
theorem parse_named (h : parse src = .ok e) (hx : e.Part fs (.var pos name)) :
    ∃ ts, tokens src = .ok ts ∧ Reading.Names ⟨.expr, 3 * ts.length + 3, [], ts⟩ fs (.var pos name) := by
  obtain ⟨ts, hts, h⟩ := bind_ok h
  obtain ⟨⟨e', rest⟩, he, h⟩ := bind_ok h
  dsimp only at h
  split at h
  · cases h
    exact ⟨ts, hts, (ScopeAux.named _).expr he hx⟩
  · cases h

/-- A variable of a formula that was parsed is bound by one of the binders around it. -/
theorem parse_bound (h : parse src = .ok e) (hx : e.Part fs (.var pos name)) : ∃ g outer, Innermost name fs g outer := by
  have hmem : name ∈ fs.map Enclosing.var ++ [] := hx.wellFormed (parse_wellFormed h)
  rw [List.append_nil] at hmem
  exact exists_innermost hmem

end

end ModalGraph.Formula
