import ModalGraph.Proofs.Formula.Grammar

/-!
# Beginnings of formulas

Tokens are viable if they can be extended to those of a formula. Whether tokens are a phrase of the grammar does not depend on which
names are variables: these decide on its tree only. So phrases are put together here without their trees, as the parts of the parser
read them: a `seq` is a `unary` with a tail of further ones, an `expr` a `seq` with a tail of further ones. The parentheses of a phrase
go together, so none that was open before it is closed by it.
-/

namespace ModalGraph.Formula

/-- Tokens that can be extended to those of a formula. -/
def Viable (us : List Token) : Prop :=
  ∃ vs e, IsExpr [] (us ++ vs) e

/-- No parenthesis that was open before some tokens is closed among them: none of their beginnings has more closing than opening
parentheses. -/
def NeverCloses (vs : List Token) : Prop :=
  ∀ front, front <+: vs → front.countP (·.kind = .closeParen) ≤ front.countP (·.kind = .openParen)

namespace ViableAux

open GrammarAux

/-! ## Phrases, whatever their variables -/

/-- The tokens of a `unary` below any binders. -/
def Unary (us : List Token) : Prop :=
  ∀ scope, ∃ e, IsUnary scope us e

/-- The tokens of a `seq` below any binders. -/
def Seq (us : List Token) : Prop :=
  ∀ scope, ∃ e, IsSeq scope us e

/-- The tokens of an `expr` below any binders. -/
def Chain (us : List Token) : Prop :=
  ∀ scope, ∃ es, IsChain scope us es

/-- The tokens that may follow the first `unary` of a `seq`. -/
inductive SeqTail : List Token → Prop where
  | nil : SeqTail []
  | cons {t : Token} {us vs : List Token} : t.kind = .semicolon → Unary us → SeqTail vs → SeqTail (t :: (us ++ vs))

/-- The tokens that may follow the first `seq` of an `expr`. -/
inductive ParTail : List Token → Prop where
  | nil : ParTail []
  | cons {t : Token} {us vs : List Token} : t.kind = .parallel → Seq us → ParTail vs → ParTail (t :: (us ++ vs))

mutual

/-- Which names are variables decides on the tree of a phrase only. -/
theorem rescoped_unary {scope : List Bytes} : ∀ {us : List Token} {e : Expr}, IsUnary scope us e → Unary us
  | _, _, .diamond h, _ => ⟨_, .diamond h⟩
  | _, _, .binder hw hv harg hc hb hd hbody, scope' => by
    obtain ⟨e', he'⟩ := rescoped_unary hbody (_ :: scope')
    exact ⟨_, .binder hw hv harg hc hb hd he'⟩
  | _, _, .group ho h hc, scope' => by
    obtain ⟨e', he'⟩ := rescoped_expr h scope'
    exact ⟨e', .group ho he' hc⟩
  | _, _, .var h _ _, scope' => ⟨_, nameExpr_derivable scope' h⟩
  | _, _, .atom h _, scope' => ⟨_, nameExpr_derivable scope' h⟩

theorem rescoped_seq {scope : List Bytes} : ∀ {us : List Token} {e : Expr}, IsSeq scope us e → Seq us
  | _, _, .single h, scope' => (rescoped_unary h scope').imp fun _ he => .single he
  | _, _, .more h ht hright, scope' => by
    obtain ⟨left, hleft⟩ := rescoped_seq h scope'
    obtain ⟨right, hright⟩ := rescoped_unary hright scope'
    exact ⟨_, .more hleft ht hright⟩

theorem rescoped_chain {scope : List Bytes} : ∀ {us : List Token} {es : List Expr}, IsChain scope us es →
    ∀ scope', ∃ es', IsChain scope' us es' ∧ es'.length = es.length
  | _, _, .last h, scope' => by
    obtain ⟨e, he⟩ := rescoped_seq h scope'
    exact ⟨[e], .last he, rfl⟩
  | _, _, .more h ht hrest, scope' => by
    obtain ⟨e, he⟩ := rescoped_seq h scope'
    obtain ⟨es, hes, hlen⟩ := rescoped_chain hrest scope'
    exact ⟨e :: es, .more he ht hes, by rw [List.length_cons, List.length_cons, hlen]⟩

theorem rescoped_expr {scope : List Bytes} : ∀ {us : List Token} {e : Expr}, IsExpr scope us e →
    ∀ scope', ∃ e', IsExpr scope' us e'
  | _, _, .single h, scope' => (rescoped_seq h scope').imp fun _ he => .single he
  | _, _, .parallel h hlen, scope' => by
    obtain ⟨es, hes, hlen'⟩ := rescoped_chain h scope'
    exact ⟨_, .parallel hes (hlen' ▸ hlen)⟩

end

section

variable {us vs : List Token} {t : Token}

theorem Unary.seq (h : Unary us) : Seq us :=
  fun scope => (h scope).imp fun _ he => .single he

theorem Seq.chain (h : Seq us) : Chain us := by
  intro scope
  obtain ⟨e, he⟩ := h scope
  exact ⟨[e], .last he⟩

/-- A chain of one part is that part, and longer ones are compositions. -/
theorem Chain.expr (h : Chain us) (scope : List Bytes) : ∃ e, IsExpr scope us e := by
  obtain ⟨es, hes⟩ := h scope
  cases hes with
  | last he => exact ⟨_, .single he⟩
  | more he ht hes =>
    refine ⟨_, .parallel (.more he ht hes) ?_⟩
    cases hes <;> simp

theorem Chain.viable (h : Chain (us ++ vs)) : Viable us := by
  obtain ⟨e, he⟩ := h.expr []
  exact ⟨vs, e, he⟩

theorem Seq.append_tail (h : Seq us) (ht : SeqTail vs) : Seq (us ++ vs) := by
  induction ht generalizing us with
  | nil => rwa [List.append_nil]
  | @cons t ws vs ht hws _ ih =>
    have hmore : Seq (us ++ t :: ws) := by
      intro scope
      obtain ⟨left, hleft⟩ := h scope
      obtain ⟨right, hright⟩ := hws scope
      exact ⟨_, .more hleft ht hright⟩
    have := ih hmore
    rwa [List.append_assoc, List.cons_append] at this

theorem Seq.chain_tail (h : Seq us) (ht : ParTail vs) : Chain (us ++ vs) := by
  induction ht generalizing us with
  | nil =>
    rw [List.append_nil]
    exact h.chain
  | cons ht hws _ ih =>
    intro scope
    obtain ⟨e, he⟩ := h scope
    obtain ⟨es, hes⟩ := ih hws scope
    exact ⟨e :: es, .more he ht hes⟩

theorem Chain.group {o c : Token} (ho : o.kind = .openParen) (h : Chain us) (hc : c.kind = .closeParen) : Unary (o :: (us ++ [c])) :=
  fun scope => (h.expr scope).imp fun _ he => .group ho he hc

theorem unary_of_name (h : t.kind = .identifier) : Unary [t] :=
  fun scope => ⟨_, nameExpr_derivable scope h⟩

end

/-! ## Parentheses -/

/-- As many closing as opening parentheses, and never more closing ones before. -/
structure Balanced (us : List Token) : Prop where
  never : NeverCloses us
  even : us.countP (·.kind = .closeParen) = us.countP (·.kind = .openParen)

theorem balanced_of_none {us : List Token} (h : ∀ t ∈ us, t.kind ≠ .openParen ∧ t.kind ≠ .closeParen) : Balanced us := by
  have hnone : ∀ front, front <+: us → front.countP (·.kind = .closeParen) = 0 := by
    intro front hfront
    rw [List.countP_eq_zero]
    intro t ht
    simpa using (h t (hfront.subset ht)).2
  refine ⟨fun front hfront => (hnone front hfront).symm ▸ Nat.zero_le _, ?_⟩
  rw [hnone us (List.prefix_refl us), eq_comm, List.countP_eq_zero]
  intro t ht
  simpa using (h t ht).1

theorem Balanced.never_append {us vs : List Token} (h : Balanced us) (hvs : NeverCloses vs) : NeverCloses (us ++ vs) := by
  rintro front ⟨back, hsplit⟩
  rcases List.append_eq_append_iff.mp hsplit with ⟨as, hus, -⟩ | ⟨bs, rfl, hbs⟩
  · exact h.never front ⟨as, hus.symm⟩
  · rw [List.countP_append, List.countP_append, h.even]
    exact Nat.add_le_add_left (hvs bs ⟨back, hbs.symm⟩) _

theorem Balanced.append {us vs : List Token} (h : Balanced us) (hvs : Balanced vs) : Balanced (us ++ vs) :=
  ⟨h.never_append hvs.never, by rw [List.countP_append, List.countP_append, h.even, hvs.even]⟩

theorem Balanced.cons {t : Token} {us : List Token} (ho : t.kind ≠ .openParen) (hc : t.kind ≠ .closeParen) (h : Balanced us) :
    Balanced (t :: us) := by
  have hone : Balanced [t] := balanced_of_none fun u hu => List.mem_singleton.mp hu ▸ ⟨ho, hc⟩
  exact hone.append h

theorem Balanced.group {o c : Token} {us : List Token} (ho : o.kind = .openParen) (h : Balanced us) (hc : c.kind = .closeParen) :
    Balanced (o :: (us ++ [c])) := by
  have hkind : TokenKind.openParen ≠ .closeParen := by decide
  refine ⟨?_, ?_⟩
  · rintro front ⟨back, hsplit⟩
    cases front with
    | nil => exact Nat.le_refl 0
    | cons t front =>
      obtain ⟨rfl, hinner⟩ := List.cons.inj hsplit
      simp only [List.countP_cons, ho, hkind, decide_true, decide_false, if_true, Bool.false_eq_true, if_false]
      rcases List.append_eq_append_iff.mp hinner with ⟨as, hus, -⟩ | ⟨bs, rfl, hbs⟩
      · have := h.never front ⟨as, hus.symm⟩
        omega
      · have hlast : bs.countP (·.kind = .closeParen) ≤ 1 := by
          have hle := List.countP_le_length (p := fun u : Token => decide (u.kind = .closeParen)) (l := bs)
          have hlen := congrArg List.length hbs
          rw [List.length_append, List.length_singleton] at hlen
          omega
        rw [List.countP_append, List.countP_append, h.even]
        omega
  · simp only [List.countP_cons, List.countP_append, List.countP_nil, ho, hc, hkind, hkind.symm, h.even, decide_true, decide_false,
      if_true, Bool.false_eq_true, if_false]

theorem balanced_diamond {direction : Direction} {us : List Token} {phi : Option Bytes} {sigma : Bytes}
    (h : IsDiamond direction us phi sigma) : Balanced us := by
  refine balanced_of_none ?_
  cases h with
  | joined hd hs =>
    simp only [List.forall_mem_cons, hd, hs]
    cases direction <;> exact ⟨by decide, by decide, List.forall_mem_nil _⟩
  | apart ho hc hs =>
    simp only [List.forall_mem_cons, ho, hc, hs]
    cases direction <;> exact ⟨by decide, by decide, by decide, List.forall_mem_nil _⟩
  | labelled ho hp hc hs =>
    simp only [List.forall_mem_cons, ho, hp, hc, hs]
    cases direction <;> exact ⟨by decide, by decide, by decide, by decide, List.forall_mem_nil _⟩

mutual

/-- The parentheses of a phrase go together. -/
theorem balanced_unary {scope : List Bytes} : ∀ {us : List Token} {e : Expr}, IsUnary scope us e → Balanced us
  | _, _, .diamond h => balanced_diamond h
  | _, _, @IsUnary.binder _ least _ _ _ _ _ _ _ hw hv _ hc hb hd hbody => by
    have hword : binderKind least ≠ .openParen ∧ binderKind least ≠ .closeParen := by cases least <;> decide
    refine .cons (hw ▸ hword.1) (hw ▸ hword.2) (.cons (hv ▸ by decide) (hv ▸ by decide) (.cons (hc ▸ by decide) (hc ▸ by decide) ?_))
    exact .cons (hb ▸ by decide) (hb ▸ by decide) (.cons (hd ▸ by decide) (hd ▸ by decide) (balanced_unary hbody))
  | _, _, .group ho h hc => (balanced_expr h).group ho hc
  | _, _, .var h _ _ => balanced_of_none fun _ ht => List.mem_singleton.mp ht ▸ ⟨h ▸ by decide, h ▸ by decide⟩
  | _, _, .atom h _ => balanced_of_none fun _ ht => List.mem_singleton.mp ht ▸ ⟨h ▸ by decide, h ▸ by decide⟩

theorem balanced_seq {scope : List Bytes} : ∀ {us : List Token} {e : Expr}, IsSeq scope us e → Balanced us
  | _, _, .single h => balanced_unary h
  | _, _, .more h ht hright => (balanced_seq h).append (.cons (ht ▸ by decide) (ht ▸ by decide) (balanced_unary hright))

theorem balanced_chain {scope : List Bytes} : ∀ {us : List Token} {es : List Expr}, IsChain scope us es → Balanced us
  | _, _, .last h => balanced_seq h
  | _, _, .more h ht hrest => (balanced_seq h).append (.cons (ht ▸ by decide) (ht ▸ by decide) (balanced_chain hrest))

theorem balanced_expr {scope : List Bytes} : ∀ {us : List Token} {e : Expr}, IsExpr scope us e → Balanced us
  | _, _, .single h => balanced_seq h
  | _, _, .parallel h _ => balanced_chain h

end

end ViableAux

end ModalGraph.Formula
