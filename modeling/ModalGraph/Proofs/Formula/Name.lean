import Mathlib.Data.List.TakeWhile
import ModalGraph.Formula.Parser
import ModalGraph.Proofs.Step

/-!
# Names in formulas

What formula text can put where a name is expected. A name is a run of identifier bytes that is no binder word, with an argument
in brackets or without (`CleanName`); the lexer yields no other (`tokens_clean`). A formula is well-formed below some binders
(`Expr.WellFormed`) if its names are of that kind, its parallel compositions have two children at least, its variables have a
binder, and no name without argument hides one. Every formula that the parser returns is (`parse_wellFormed`). Of a formula that is
built by hand, the names alone may be of that kind (`Expr.Named`).
-/

namespace ModalGraph.Formula

/-- A name with its argument, as the lexer reads it. -/
structure CleanName (name : Bytes) (arg : Option Bytes) : Prop where
  nonempty : name ≠ []
  identBytes : ∀ b ∈ name, isIdentByte b = true
  notBinder : name ≠ muWord ∧ name ≠ nuWord
  argBytes : ∀ a ∈ arg, ∀ b ∈ a, isArgByte b = true

/-- A name that a check finds in order, with an argument. -/
theorem clean_of_check {name : Bytes} {arg : Option Bytes}
    (h : (!name.isEmpty && name.all isIdentByte && name != muWord && name != nuWord) = true)
    (harg : ∀ a ∈ arg, ∀ b ∈ a, isArgByte b = true) : CleanName name arg := by
  simp only [Bool.and_eq_true, bne_iff_ne] at h
  exact ⟨by simpa using h.1.1.1, List.all_eq_true.mp h.1.1.2, ⟨h.1.2, h.2⟩, harg⟩

/-- The source form of a name with its argument. -/
def IsName (literal : Bytes) : Prop :=
  ∃ name arg, CleanName name arg ∧ literal = bracketed name arg

mutual

/-- A formula as text can spell it, below binders of the variables in `scope`. -/
def Expr.WellFormed (scope : List Bytes) : Expr → Prop
  | .atom _ name arg => CleanName name arg ∧ (arg = none → name ∉ scope)
  | .seq _ left right => left.WellFormed scope ∧ right.WellFormed scope
  | .par _ children => 2 ≤ children.length ∧ Expr.AllWellFormed scope children
  | .diamond _ _ phi sigma => (∀ p ∈ phi, IsName p) ∧ IsName sigma
  | .fix _ _ v base body => CleanName v none ∧ IsName base ∧ body.WellFormed (v :: scope)
  | .var _ name => name ∈ scope
  | .hole => False

/-- Several formulas as text can spell them. -/
def Expr.AllWellFormed (scope : List Bytes) : List Expr → Prop
  | [] => True
  | e :: es => e.WellFormed scope ∧ Expr.AllWellFormed scope es

end

mutual

/-- A formula of names that text can spell and without missing parts, whatever its variables are bound to. -/
def Expr.Named : Expr → Prop
  | .atom _ name arg => CleanName name arg
  | .seq _ left right => left.Named ∧ right.Named
  | .par _ children => 2 ≤ children.length ∧ Expr.AllNamed children
  | .diamond _ _ phi sigma => (∀ p ∈ phi, IsName p) ∧ IsName sigma
  | .fix _ _ v base body => CleanName v none ∧ IsName base ∧ body.Named
  | .var .. => True
  | .hole => False

/-- Several formulas of names that text can spell. -/
def Expr.AllNamed : List Expr → Prop
  | [] => True
  | e :: es => e.Named ∧ Expr.AllNamed es

end

mutual

/-- A formula that text can spell has names that text can spell. -/
theorem Expr.WellFormed.named : ∀ {e : Expr} {scope : List Bytes}, e.WellFormed scope → e.Named
  | .atom .., _, h => h.1
  | .seq .., _, h => ⟨Expr.WellFormed.named h.1, Expr.WellFormed.named h.2⟩
  | .par .., _, h => ⟨h.1, Expr.AllWellFormed.named h.2⟩
  | .diamond .., _, h => h
  | .fix .., _, h => ⟨h.1, h.2.1, Expr.WellFormed.named h.2.2⟩
  | .var .., _, _ => trivial
  | .hole, _, h => h.elim

theorem Expr.AllWellFormed.named : ∀ {es : List Expr} {scope : List Bytes}, Expr.AllWellFormed scope es → Expr.AllNamed es
  | [], _, _ => trivial
  | _ :: _, _, h => ⟨Expr.WellFormed.named h.1, Expr.AllWellFormed.named h.2⟩

end

mutual

/-- No part of a formula is missing if all names are there. -/
theorem Expr.Named.hasHole : ∀ {e : Expr}, e.Named → e.hasHole = false
  | .atom .., _ => rfl
  | .seq .., h => by rw [Expr.hasHole, Expr.Named.hasHole h.1, Expr.Named.hasHole h.2, Bool.or_false]
  | .par .., h => by rw [Expr.hasHole, Expr.AllNamed.hasHole h.2]
  | .diamond .., _ => rfl
  | .fix .., h => by rw [Expr.hasHole, Expr.Named.hasHole h.2.2]
  | .var .., _ => rfl
  | .hole, h => h.elim

theorem Expr.AllNamed.hasHole : ∀ {es : List Expr}, Expr.AllNamed es → Expr.anyHole es = false
  | [], _ => rfl
  | _ :: _, h => by rw [Expr.anyHole, Expr.Named.hasHole h.1, Expr.AllNamed.hasHole h.2, Bool.or_false]

end

/-! ## What the lexer yields -/

namespace NameAux

/-- A sign is no name. -/
theorem sign?_kind {b : UInt8} {rest : Bytes} {l : Lexeme} (h : sign? b rest = some l) : l.kind ≠ .identifier := by
  unfold sign? at h
  iterate 11
    rcases ite_eq_iff.mp h with ⟨-, h⟩ | ⟨-, h⟩
    · obtain rfl := Option.some.inj h
      exact nofun
  cases h

/-- A bracketed argument makes a clean name of a clean name without argument. -/
theorem argument_clean {name rest : Bytes} {l : Lexeme} (hn : CleanName name none) (h : argument name rest = .ok l) :
    CleanName l.text l.arg := by
  unfold argument at h
  dsimp only at h
  split at h
  · cases h
  · split at h
    · obtain rfl := Except.ok.inj h
      refine ⟨hn.nonempty, hn.identBytes, hn.notBinder, ?_⟩
      intro a ha
      obtain rfl := Option.some.inj ha
      exact fun b hb => List.mem_takeWhile_imp hb
    · cases h

/-- What is read as a name is a clean name. -/
theorem word_clean {b : UInt8} {rest : Bytes} {l : Lexeme} (hb : isIdentByte b = true) (h : word (b :: rest) = .ok l)
    (hk : l.kind = .identifier) : CleanName l.text l.arg := by
  unfold word at h
  dsimp only at h
  have hne : (b :: rest).takeWhile isIdentByte ≠ [] := by simp [hb]
  split at h
  · obtain rfl := Except.ok.inj h
    cases hk
  · rename_i hmu
    split at h
    · obtain rfl := Except.ok.inj h
      cases hk
    · rename_i hnu
      have hn : CleanName ((b :: rest).takeWhile isIdentByte) none :=
        ⟨hne, fun _ hb => List.mem_takeWhile_imp hb, ⟨by simpa using hmu, by simpa using hnu⟩, by simp⟩
      split at h
      · split at h
        · exact argument_clean hn h
        · obtain rfl := Except.ok.inj h
          exact hn
      · obtain rfl := Except.ok.inj h
        exact hn

/-- A lexeme that is a name is a clean one. -/
theorem lexeme_clean {b : UInt8} {rest : Bytes} {l : Lexeme} (h : lexeme b rest = .ok l) (hk : l.kind = .identifier) :
    CleanName l.text l.arg := by
  unfold lexeme at h
  split at h
  · rename_i l' hs
    obtain rfl := Except.ok.inj h
    exact absurd hk (sign?_kind hs)
  · split at h
    · rename_i hb
      exact word_clean hb h hk
    · cases h

end NameAux

open NameAux

/-- Tokens whose names are clean. -/
def CleanTokens (ts : List Token) : Prop :=
  ∀ t ∈ ts, t.kind = .identifier → CleanName t.text t.arg

theorem tokensFrom_clean (p : Position) (src : Bytes) (ts : List Token) (h : tokensFrom p src = .ok ts) : CleanTokens ts := by
  induction p, src using tokensFrom.induct generalizing ts with
  | case1 p =>
    rw [tokensFrom] at h
    obtain rfl := Except.ok.inj h
    intro t ht hk
    obtain rfl := List.mem_singleton.mp ht
    cases hk
  | case2 p b rest hs ih =>
    rw [tokensFrom, if_pos hs] at h
    exact ih ts h
  | case3 p b rest hs f hf =>
    rw [tokensFrom, if_neg hs, hf] at h
    cases h
  | case4 p b rest hs l hl ih =>
    rw [tokensFrom, if_neg hs, hl] at h
    dsimp only at h
    match hm : tokensFrom ((p.advance b).after (rest.take (l.size - 1))) (rest.drop (l.size - 1)) with
    | .error f => rw [hm] at h; cases h
    | .ok more =>
      rw [hm] at h
      obtain rfl := Except.ok.inj h
      intro t ht hk
      rcases List.mem_cons.mp ht with rfl | ht
      · exact lexeme_clean hl hk
      · exact ih more hm t ht hk

/-- The tokens of a text have clean names. -/
theorem tokens_clean {src : Bytes} {ts : List Token} (h : tokens src = .ok ts) : CleanTokens ts :=
  tokensFrom_clean _ _ _ h

/-! ## What the parser yields -/

namespace NameAux

/-- The first token is one of the tokens, or the end. -/
theorem peek_clean {ts : List Token} (h : CleanTokens ts) (hk : (peek ts).kind = .identifier) :
    CleanName (peek ts).text (peek ts).arg := by
  cases ts with
  | nil => cases hk
  | cons t ts => exact h t List.mem_cons_self hk

theorem advance_clean {ts : List Token} (h : CleanTokens ts) : CleanTokens (advance ts) := by
  unfold advance
  split
  · exact h
  · exact fun t ht => h t (List.mem_of_mem_tail ht)

theorem need_clean {kind : TokenKind} {what : String} {ts rest : List Token} {t : Token} (h : CleanTokens ts)
    (hn : need kind what ts = .ok (t, rest)) : CleanTokens rest ∧ t.kind = kind ∧ (t.kind = .identifier → CleanName t.text t.arg) := by
  unfold need at hn
  split at hn
  · rename_i hk
    cases hn
    exact ⟨advance_clean h, hk, peek_clean h⟩
  · cases hn

theorem operatorName_clean {what : String} {ts rest : List Token} {name : Bytes} (h : CleanTokens ts)
    (hn : operatorName what ts = .ok (name, rest)) : CleanTokens rest ∧ IsName name := by
  obtain ⟨⟨t, rest'⟩, ht, hr⟩ := bind_ok hn
  cases hr
  obtain ⟨hc, hk, hclean⟩ := need_clean h ht
  exact ⟨hc, t.text, t.arg, hclean hk, rfl⟩

theorem optionalName_clean {ts : List Token} (h : CleanTokens ts) :
    CleanTokens (optionalName ts).2 ∧ ∀ p ∈ (optionalName ts).1, IsName p := by
  unfold optionalName
  split
  · rename_i hk
    refine ⟨advance_clean h, ?_⟩
    intro p hp
    cases hp
    exact ⟨_, _, peek_clean h hk, rfl⟩
  · exact ⟨h, by simp⟩

theorem plainDiamond_clean {p : Position} {direction : Direction} {ts rest : List Token} {e : Expr} (scope : List Bytes)
    (h : CleanTokens ts) (hd : plainDiamond p direction ts = .ok (e, rest)) : CleanTokens rest ∧ e.WellFormed scope := by
  obtain ⟨⟨sigma, rest'⟩, hs, hr⟩ := bind_ok hd
  cases hr
  obtain ⟨hc, hname⟩ := operatorName_clean h hs
  exact ⟨hc, by simp, hname⟩

theorem diamondBody_clean {p : Position} {direction : Direction} {closing : TokenKind} {what : String} {ts rest : List Token}
    {e : Expr} (scope : List Bytes) (h : CleanTokens ts) (hd : diamondBody p direction closing what ts = .ok (e, rest)) :
    CleanTokens rest ∧ e.WellFormed scope := by
  obtain ⟨h1, hphi⟩ := optionalName_clean h
  obtain ⟨⟨_, ts2⟩, hn, hd⟩ := bind_ok hd
  obtain ⟨h2, -, -⟩ := need_clean h1 hn
  obtain ⟨⟨sigma, ts3⟩, hs, hr⟩ := bind_ok hd
  cases hr
  obtain ⟨h3, hsigma⟩ := operatorName_clean h2 hs
  exact ⟨h3, hphi, hsigma⟩

theorem binderHead_clean {ts rest : List Token} {v base : Bytes} (h : CleanTokens ts)
    (hb : binderHead ts = .ok ((v, base), rest)) : CleanTokens rest ∧ CleanName v none ∧ IsName base := by
  obtain ⟨⟨t, ts1⟩, hv, hb⟩ := bind_ok hb
  obtain ⟨h1, hk, hclean⟩ := need_clean h hv
  dsimp only at hb
  split at hb
  · cases hb
  obtain ⟨⟨_, ts2⟩, hcomma, hb⟩ := bind_ok hb
  obtain ⟨h2, -, -⟩ := need_clean h1 hcomma
  obtain ⟨⟨base', ts3⟩, hbase, hb⟩ := bind_ok hb
  obtain ⟨h3, hname⟩ := operatorName_clean h2 hbase
  obtain ⟨⟨_, ts4⟩, hdot, hb⟩ := bind_ok hb
  obtain ⟨h4, -, -⟩ := need_clean h3 hdot
  cases hb
  have hv := hclean hk
  exact ⟨h4, ⟨hv.nonempty, hv.identBytes, hv.notBinder, by simp⟩, hname⟩

theorem nameExpr_wellFormed (scope : List Bytes) {t : Token} (h : CleanName t.text t.arg) :
    (nameExpr scope t).WellFormed scope := by
  unfold nameExpr
  split
  · rename_i hv
    simp only [Bool.and_eq_true, List.contains_iff_mem] at hv
    exact hv.2
  · rename_i hv
    refine ⟨h, ?_⟩
    intro ha hs
    simp only [ha, Option.isNone_none, Bool.true_and, List.contains_iff_mem] at hv
    exact hv hs

/-- What every function of the parser keeps with some fuel: clean tokens stay, and what is read is well-formed. -/
structure Yields (fuel : Nat) : Prop where
  expr : ∀ {scope ts e rest}, CleanTokens ts → Formula.expr fuel scope ts = .ok (e, rest) →
    CleanTokens rest ∧ e.WellFormed scope
  parTail : ∀ {scope ts es rest}, CleanTokens ts → Formula.parTail fuel scope ts = .ok (es, rest) →
    CleanTokens rest ∧ Expr.AllWellFormed scope es
  seq : ∀ {scope ts e rest}, CleanTokens ts → Formula.seq fuel scope ts = .ok (e, rest) →
    CleanTokens rest ∧ e.WellFormed scope
  seqTail : ∀ {scope p left ts e rest}, CleanTokens ts → left.WellFormed scope →
    Formula.seqTail fuel scope p left ts = .ok (e, rest) → CleanTokens rest ∧ e.WellFormed scope
  unary : ∀ {scope ts e rest}, CleanTokens ts → Formula.unary fuel scope ts = .ok (e, rest) →
    CleanTokens rest ∧ e.WellFormed scope

theorem yields_zero : Yields 0 where
  expr _ h := by rw [Formula.expr] at h; cases h
  parTail _ h := by rw [Formula.parTail] at h; cases h
  seq _ h := by rw [Formula.seq] at h; cases h
  seqTail _ _ h := by rw [Formula.seqTail] at h; cases h
  unary _ h := by rw [Formula.unary] at h; cases h

theorem expr_succ {fuel : Nat} (ih : Yields fuel) {scope : List Bytes} {ts rest : List Token} {e : Expr} (hc : CleanTokens ts)
    (h : Formula.expr (fuel + 1) scope ts = .ok (e, rest)) : CleanTokens rest ∧ e.WellFormed scope := by
  rw [Formula.expr] at h
  obtain ⟨⟨first, rest1⟩, hfirst, h⟩ := bind_ok h
  obtain ⟨hc1, hwf⟩ := ih.seq hc hfirst
  obtain ⟨⟨others, rest2⟩, hothers, h⟩ := bind_ok h
  obtain ⟨hc2, hall⟩ := ih.parTail hc1 hothers
  dsimp only at h
  split at h
  · cases h
    exact ⟨hc2, hwf⟩
  · rename_i hne
    cases h
    refine ⟨hc2, ?_, hwf, hall⟩
    cases others with
    | nil => simp at hne
    | cons f fs => simp

theorem parTail_succ {fuel : Nat} (ih : Yields fuel) {scope : List Bytes} {ts rest : List Token} {es : List Expr}
    (hc : CleanTokens ts) (h : Formula.parTail (fuel + 1) scope ts = .ok (es, rest)) :
    CleanTokens rest ∧ Expr.AllWellFormed scope es := by
  rw [Formula.parTail] at h
  split at h
  · obtain ⟨⟨e, rest1⟩, he, h⟩ := bind_ok h
    obtain ⟨hc1, hwf⟩ := ih.seq (advance_clean hc) he
    obtain ⟨⟨es', rest2⟩, hes, h⟩ := bind_ok h
    obtain ⟨hc2, hall⟩ := ih.parTail hc1 hes
    cases h
    exact ⟨hc2, hwf, hall⟩
  · cases h
    exact ⟨hc, trivial⟩

theorem seqTail_succ {fuel : Nat} (ih : Yields fuel) {scope : List Bytes} {p : Position} {left e : Expr} {ts rest : List Token}
    (hc : CleanTokens ts) (hl : left.WellFormed scope) (h : Formula.seqTail (fuel + 1) scope p left ts = .ok (e, rest)) :
    CleanTokens rest ∧ e.WellFormed scope := by
  rw [Formula.seqTail] at h
  split at h
  · obtain ⟨⟨right, rest1⟩, hright, h⟩ := bind_ok h
    obtain ⟨hc1, hwf⟩ := ih.unary (advance_clean hc) hright
    exact ih.seqTail hc1 (show (Expr.seq p left right).WellFormed scope from ⟨hl, hwf⟩) h
  · cases h
    exact ⟨hc, hl⟩

/-- A binder and its body, whichever binder word it is. -/
theorem binder_wellFormed {fuel : Nat} (ih : Yields fuel) {scope : List Bytes} {p : Position} {least : Bool}
    {ts rest : List Token} {e : Expr} (hc : CleanTokens ts)
    (h : (do
      let ((v, base), rest) ← binderHead ts
      let (body, rest) ← Formula.unary fuel (v :: scope) rest
      return (Expr.fix p least v base body, rest)) = .ok (e, rest)) : CleanTokens rest ∧ e.WellFormed scope := by
  obtain ⟨⟨⟨v, base⟩, rest1⟩, hhead, h⟩ := bind_ok h
  obtain ⟨hc1, hv, hbase⟩ := binderHead_clean hc hhead
  obtain ⟨⟨body, rest2⟩, hbody, h⟩ := bind_ok h
  obtain ⟨hc2, hwf⟩ := ih.unary hc1 hbody
  cases h
  exact ⟨hc2, hv, hbase, hwf⟩

theorem unary_succ {fuel : Nat} (ih : Yields fuel) {scope : List Bytes} {ts rest : List Token} {e : Expr} (hc : CleanTokens ts)
    (h : Formula.unary (fuel + 1) scope ts = .ok (e, rest)) : CleanTokens rest ∧ e.WellFormed scope := by
  have hc' := advance_clean hc
  rw [Formula.unary] at h
  dsimp only at h
  split at h
  · exact plainDiamond_clean scope hc' h
  · exact plainDiamond_clean scope hc' h
  · exact diamondBody_clean scope hc' h
  · exact diamondBody_clean scope hc' h
  · split at h
    · cases h
    · obtain ⟨⟨e', rest1⟩, he, h⟩ := bind_ok h
      obtain ⟨hc1, hwf⟩ := ih.expr hc' he
      dsimp only at h
      split at h
      · cases h
        exact ⟨advance_clean hc1, hwf⟩
      · split at h
        · cases h
        · cases h
  · exact binder_wellFormed ih hc' h
  · exact binder_wellFormed ih hc' h
  · rename_i hk
    split at h
    · cases h
    · cases h
      exact ⟨hc', nameExpr_wellFormed scope (peek_clean hc hk)⟩
  · cases h

theorem yields (fuel : Nat) : Yields fuel := by
  induction fuel with
  | zero => exact yields_zero
  | succ fuel ih =>
    exact {
      expr := expr_succ ih
      parTail := parTail_succ ih
      seq := by
        intro scope ts e rest hc h
        rw [Formula.seq] at h
        obtain ⟨⟨first, rest1⟩, hfirst, h⟩ := bind_ok h
        obtain ⟨hc1, hwf⟩ := ih.unary hc hfirst
        exact ih.seqTail hc1 hwf h
      seqTail := seqTail_succ ih
      unary := unary_succ ih }

end NameAux

/-- Every formula that the parser returns is well-formed. -/
theorem parse_wellFormed {src : Bytes} {e : Expr} (h : parse src = .ok e) : e.WellFormed [] := by
  obtain ⟨ts, hts, h⟩ := bind_ok h
  obtain ⟨⟨e', rest⟩, he, h⟩ := bind_ok h
  dsimp only at h
  split at h
  · cases h
    exact ((yields _).expr (tokens_clean hts) he).2
  · cases h

end ModalGraph.Formula
