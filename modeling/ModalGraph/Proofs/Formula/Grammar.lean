import ModalGraph.Formula.Parser
import ModalGraph.Proofs.Step

/-!
# The grammar of formulas

Which tokens spell a formula, said without the parser. The grammar is

* `expr := seq ('||' seq)*` (`IsExpr`, its parts in `IsChain`),
* `seq := unary (';' unary)*` (`IsSeq`),
* `unary` is a diamond (`IsDiamond`), a binder with one `unary` as its body, an `expr` in parentheses, or a name (`IsUnary`).

Each rule says which tree goes with the tokens. The parser accepts exactly the grammar and gives its tree
(`parseTokens_ok_iff`): what it reads is derivable (`Sound`), and it reads what is derivable with three nested calls per token
(`parses_unary`, `parses_parts`, `parses_chain`, `parses_expr`), since the token after a phrase never continues it.
-/

namespace ModalGraph.Formula

/-! ## The grammar -/

/-- The sign of a diamond without message name, as one token. -/
def Direction.joined : Direction → TokenKind
  | .forward => .rightDiamond
  | .backward => .leftDiamond

/-- The first sign of a diamond that is written with two. -/
def Direction.opening : Direction → TokenKind
  | .forward => .bar
  | .backward => .less

/-- The second sign of a diamond that is written with two. -/
def Direction.closing : Direction → TokenKind
  | .forward => .greater
  | .backward => .bar

/-- The kind of the word that opens a fixpoint. -/
def binderKind (least : Bool) : TokenKind :=
  if least then .mu else .nu

/-- The tokens of a diamond with its message name, if it has one, and its aggregation name. -/
inductive IsDiamond (direction : Direction) : List Token → Option Bytes → Bytes → Prop where
  | joined {d s : Token} : d.kind = direction.joined → s.kind = .identifier → IsDiamond direction [d, s] none s.literal
  | apart {o c s : Token} :
      o.kind = direction.opening → c.kind = direction.closing → s.kind = .identifier →
        IsDiamond direction [o, c, s] none s.literal
  | labelled {o p c s : Token} :
      o.kind = direction.opening → p.kind = .identifier → c.kind = direction.closing → s.kind = .identifier →
        IsDiamond direction [o, p, c, s] (some p.literal) s.literal

mutual

/-- `expr := seq ('||' seq)*`. One `seq` stands for itself, several are one flat composition. -/
inductive IsExpr : List Bytes → List Token → Expr → Prop where
  | single {scope : List Bytes} {ts : List Token} {e : Expr} : IsSeq scope ts e → IsExpr scope ts e
  | parallel {scope : List Bytes} {ts : List Token} {es : List Expr} :
      IsChain scope ts es → 2 ≤ es.length → IsExpr scope ts (.par (peek ts).pos es)

/-- `seq ('||' seq)*` with all its parts. -/
inductive IsChain : List Bytes → List Token → List Expr → Prop where
  | last {scope : List Bytes} {ts : List Token} {e : Expr} : IsSeq scope ts e → IsChain scope ts [e]
  | more {scope : List Bytes} {ts us : List Token} {t : Token} {e : Expr} {es : List Expr} :
      IsSeq scope ts e → t.kind = .parallel → IsChain scope us es → IsChain scope (ts ++ t :: us) (e :: es)

/-- `seq := unary (';' unary)*`, grouped to the left. -/
inductive IsSeq : List Bytes → List Token → Expr → Prop where
  | single {scope : List Bytes} {ts : List Token} {e : Expr} : IsUnary scope ts e → IsSeq scope ts e
  | more {scope : List Bytes} {ts us : List Token} {t : Token} {left right : Expr} :
      IsSeq scope ts left → t.kind = .semicolon → IsUnary scope us right →
        IsSeq scope (ts ++ t :: us) (.seq (peek ts).pos left right)

/-- A diamond, a binder with one `unary` as its body, an `expr` in parentheses, or a name. A name without argument is a variable
below a binder of that name, and every other name is an operator. -/
inductive IsUnary : List Bytes → List Token → Expr → Prop where
  | diamond {scope : List Bytes} {direction : Direction} {ts : List Token} {phi : Option Bytes} {sigma : Bytes} :
      IsDiamond direction ts phi sigma → IsUnary scope ts (.diamond (peek ts).pos direction phi sigma)
  | binder {scope : List Bytes} {least : Bool} {w v comma base dot : Token} {ts : List Token} {body : Expr} :
      w.kind = binderKind least → v.kind = .identifier → v.arg = none → comma.kind = .comma → base.kind = .identifier →
        dot.kind = .dot → IsUnary (v.text :: scope) ts body →
          IsUnary scope (w :: v :: comma :: base :: dot :: ts) (.fix w.pos least v.text base.literal body)
  | group {scope : List Bytes} {o c : Token} {ts : List Token} {e : Expr} :
      o.kind = .openParen → IsExpr scope ts e → c.kind = .closeParen → IsUnary scope (o :: (ts ++ [c])) e
  | var {scope : List Bytes} {t : Token} :
      t.kind = .identifier → t.arg = none → t.text ∈ scope → IsUnary scope [t] (.var t.pos t.text)
  | atom {scope : List Bytes} {t : Token} :
      t.kind = .identifier → (t.arg = none → t.text ∉ scope) → IsUnary scope [t] (.atom t.pos t.text t.arg)

end

section

variable {scope : List Bytes} {ts us rest : List Token} {e : Expr}

theorem IsDiamond.ne_nil {direction : Direction} {phi : Option Bytes} {sigma : Bytes} (h : IsDiamond direction ts phi sigma) :
    ts ≠ [] := by
  cases h <;> exact List.cons_ne_nil _ _

theorem IsUnary.ne_nil (h : IsUnary scope ts e) : ts ≠ [] := by
  cases h with
  | diamond h => exact h.ne_nil
  | _ => exact List.cons_ne_nil _ _

theorem IsSeq.ne_nil (h : IsSeq scope ts e) : ts ≠ [] := by
  cases h with
  | single h => exact h.ne_nil
  | more => simp

theorem IsChain.ne_nil {es : List Expr} (h : IsChain scope ts es) : ts ≠ [] := by
  cases h with
  | last h => exact h.ne_nil
  | more => simp

theorem IsExpr.ne_nil (h : IsExpr scope ts e) : ts ≠ [] := by
  cases h with
  | single h => exact h.ne_nil
  | parallel h => exact h.ne_nil

end

/-! ## Reading a token -/

namespace GrammarAux

theorem peek_cons (t : Token) (ts : List Token) : peek (t :: ts) = t := rfl

theorem peek_append {us : List Token} (h : us ≠ []) (rest : List Token) : peek (us ++ rest) = peek us := by
  cases us with
  | nil => exact absurd rfl h
  | cons t us => rfl

theorem advance_cons {t : Token} (h : t.kind ≠ .endOfInput) (rest : List Token) : advance (t :: rest) = rest := by
  exact if_neg h

/-- A first token other than the end token is there and is read. -/
theorem eq_cons_of_kind {ts : List Token} {kind : TokenKind} (h : (peek ts).kind = kind) (hkind : kind ≠ .endOfInput) :
    ts = peek ts :: advance ts := by
  cases ts with
  | nil => exact absurd h.symm hkind
  | cons t ts => rw [advance_cons (show t.kind ≠ _ from h ▸ hkind)]; rfl

theorem need_ok {kind : TokenKind} {what : String} {ts rest : List Token} {t : Token} (h : need kind what ts = .ok (t, rest))
    (hkind : kind ≠ .endOfInput) : ts = t :: rest ∧ t.kind = kind := by
  unfold need at h
  split at h
  · rename_i hk
    cases h
    exact ⟨eq_cons_of_kind hk hkind, hk⟩
  · cases h

theorem need_cons {kind : TokenKind} {t : Token} (what : String) (rest : List Token) (h : t.kind = kind)
    (hkind : kind ≠ .endOfInput) : need kind what (t :: rest) = .ok (t, rest) := by
  rw [need, show peek (t :: rest) = t from rfl, if_pos h, advance_cons (h ▸ hkind)]

theorem operatorName_ok {what : String} {ts rest : List Token} {name : Bytes} (h : operatorName what ts = .ok (name, rest)) :
    ∃ t, ts = t :: rest ∧ t.kind = .identifier ∧ name = t.literal := by
  obtain ⟨⟨t, rest'⟩, ht, h⟩ := bind_ok h
  cases h
  obtain ⟨hts, hk⟩ := need_ok ht nofun
  exact ⟨t, hts, hk, rfl⟩

theorem operatorName_cons {t : Token} (what : String) (rest : List Token) (h : t.kind = .identifier) :
    operatorName what (t :: rest) = .ok (t.literal, rest) := by
  rw [operatorName, need_cons what rest h nofun]
  rfl

/-- A message name is read if one follows. -/
theorem optionalName_cases (ts : List Token) :
    (peek ts).kind = .identifier ∧ optionalName ts = (some (peek ts).literal, advance ts) ∨ optionalName ts = (none, ts) := by
  unfold optionalName
  split
  · rename_i hp
    exact .inl ⟨hp, rfl⟩
  · exact .inr rfl

theorem binderHead_ok {ts rest : List Token} {v base : Bytes} (h : binderHead ts = .ok ((v, base), rest)) :
    ∃ tv tc tb td, ts = tv :: tc :: tb :: td :: rest ∧ tv.kind = .identifier ∧ tv.arg = none ∧ tc.kind = .comma ∧
      tb.kind = .identifier ∧ td.kind = .dot ∧ v = tv.text ∧ base = tb.literal := by
  obtain ⟨⟨tv, ts₁⟩, hv, h⟩ := bind_ok h
  dsimp only at h
  split at h
  · cases h
  rename_i harg
  obtain ⟨⟨tc, ts₂⟩, hc, h⟩ := bind_ok h
  obtain ⟨⟨name, ts₃⟩, hb, h⟩ := bind_ok h
  obtain ⟨⟨td, ts₄⟩, hd, h⟩ := bind_ok h
  cases h
  obtain ⟨rfl, hvk⟩ := need_ok hv nofun
  obtain ⟨rfl, hck⟩ := need_ok hc nofun
  obtain ⟨tb, rfl, hbk, rfl⟩ := operatorName_ok hb
  obtain ⟨rfl, hdk⟩ := need_ok hd nofun
  exact ⟨tv, tc, tb, td, rfl, hvk, by simpa using harg, hck, hbk, hdk, rfl, rfl⟩

theorem binderHead_cons {tv tc tb td : Token} (rest : List Token) (hv : tv.kind = .identifier) (harg : tv.arg = none)
    (hc : tc.kind = .comma) (hb : tb.kind = .identifier) (hd : td.kind = .dot) :
    binderHead (tv :: tc :: tb :: td :: rest) = .ok ((tv.text, tb.literal), rest) := by
  rw [binderHead, need_cons _ _ hv nofun]
  show (if tv.arg.isSome = true then _ else _) = _
  rw [if_neg (by simp [harg])]
  show (need .comma _ _ >>= _) = _
  rw [need_cons _ _ hc nofun]
  show (operatorName _ _ >>= _) = _
  rw [operatorName_cons _ _ hb]
  show (need .dot _ _ >>= _) = _
  rw [need_cons _ _ hd nofun]
  rfl

/-! ## What the parser reads -/

theorem plainDiamond_ok {p : Position} {direction : Direction} {ts rest : List Token} {e : Expr}
    (h : plainDiamond p direction ts = .ok (e, rest)) :
    ∃ s, ts = s :: rest ∧ s.kind = .identifier ∧ e = .diamond p direction none s.literal := by
  obtain ⟨⟨sigma, rest'⟩, hs, h⟩ := bind_ok h
  obtain ⟨s, rfl, hk, rfl⟩ := operatorName_ok hs
  cases h
  exact ⟨s, rfl, hk, rfl⟩

/-- What follows the first sign of a diamond that is written with two. -/
theorem diamondBody_ok (direction : Direction) {what : String} {o : Token} {ts rest : List Token} {e : Expr}
    (ho : o.kind = direction.opening) (h : diamondBody o.pos direction direction.closing what ts = .ok (e, rest)) :
    ∃ us phi sigma, o :: ts = us ++ rest ∧ IsDiamond direction us phi sigma ∧ (peek us).pos = o.pos ∧
      e = .diamond o.pos direction phi sigma := by
  have hclosing : direction.closing ≠ .endOfInput := by cases direction <;> nofun
  rcases optionalName_cases ts with ⟨hp, hname⟩ | hname
  all_goals
    rw [diamondBody, hname] at h
    obtain ⟨⟨c, ts₁⟩, hc, h⟩ := bind_ok h
    obtain ⟨⟨sigma, ts₂⟩, hs, h⟩ := bind_ok h
    cases h
    obtain ⟨hts, hck⟩ := need_ok hc hclosing
    obtain ⟨s, rfl, hsk, rfl⟩ := operatorName_ok hs
  · refine ⟨[o, peek ts, c, s], some (peek ts).literal, s.literal, ?_, .labelled ho hp hck hsk, rfl, rfl⟩
    rw [eq_cons_of_kind hp nofun, hts]
    rfl
  · exact ⟨[o, c, s], none, s.literal, by rw [hts]; rfl, .apart ho hck hsk, rfl, rfl⟩

/-- What the functions of the parser read with some fuel is derivable. -/
structure Sound (fuel : Nat) : Prop where
  expr : ∀ {scope ts e rest}, Formula.expr fuel scope ts = .ok (e, rest) → ∃ us, ts = us ++ rest ∧ IsExpr scope us e
  parTail : ∀ {scope us first ts es rest}, IsSeq scope us first → Formula.parTail fuel scope ts = .ok (es, rest) →
    ∃ vs, ts = vs ++ rest ∧ IsChain scope (us ++ vs) (first :: es)
  seq : ∀ {scope ts e rest}, Formula.seq fuel scope ts = .ok (e, rest) → ∃ us, ts = us ++ rest ∧ IsSeq scope us e
  seqTail : ∀ {scope us left ts e rest}, IsSeq scope us left →
    Formula.seqTail fuel scope (peek us).pos left ts = .ok (e, rest) → ∃ vs, ts = vs ++ rest ∧ IsSeq scope (us ++ vs) e
  unary : ∀ {scope ts e rest}, Formula.unary fuel scope ts = .ok (e, rest) → ∃ us, ts = us ++ rest ∧ IsUnary scope us e

theorem sound_zero : Sound 0 where
  expr h := by rw [Formula.expr] at h; cases h
  parTail _ h := by rw [Formula.parTail] at h; cases h
  seq h := by rw [Formula.seq] at h; cases h
  seqTail _ h := by rw [Formula.seqTail] at h; cases h
  unary h := by rw [Formula.unary] at h; cases h

section

variable {fuel : Nat} {scope : List Bytes} {ts rest : List Token} {e : Expr}

theorem expr_sound (ih : Sound fuel) (h : Formula.expr (fuel + 1) scope ts = .ok (e, rest)) :
    ∃ us, ts = us ++ rest ∧ IsExpr scope us e := by
  rw [Formula.expr] at h
  obtain ⟨⟨first, rest₁⟩, hfirst, h⟩ := bind_ok h
  obtain ⟨us, rfl, hseq⟩ := ih.seq hfirst
  obtain ⟨⟨others, rest₂⟩, hothers, h⟩ := bind_ok h
  obtain ⟨vs, rfl, hchain⟩ := ih.parTail hseq hothers
  dsimp only at h
  split at h
  · rename_i hnone
    cases h
    rw [List.isEmpty_iff.mp hnone] at hchain
    refine ⟨us ++ vs, by rw [List.append_assoc], ?_⟩
    generalize us ++ vs = ws at hchain
    cases hchain with
    | last hseq => exact .single hseq
    | more _ _ hnil => nomatch hnil
  · rename_i hsome
    cases h
    refine ⟨us ++ vs, by rw [List.append_assoc], ?_⟩
    have hpeek : peek (us ++ (vs ++ rest)) = peek (us ++ vs) := by
      rw [← List.append_assoc, peek_append hchain.ne_nil]
    rw [hpeek]
    refine .parallel hchain ?_
    cases others with
    | nil => simp at hsome
    | cons f fs => simp

theorem parTail_sound (ih : Sound fuel) {us : List Token} {first : Expr} {es : List Expr} (hfirst : IsSeq scope us first)
    (h : Formula.parTail (fuel + 1) scope ts = .ok (es, rest)) :
    ∃ vs, ts = vs ++ rest ∧ IsChain scope (us ++ vs) (first :: es) := by
  rw [Formula.parTail] at h
  split at h
  · rename_i hk
    obtain ⟨⟨f, rest₁⟩, hf, h⟩ := bind_ok h
    obtain ⟨vs, hvs, hseq⟩ := ih.seq hf
    obtain ⟨⟨fs, rest₂⟩, hfs, h⟩ := bind_ok h
    cases h
    obtain ⟨ws, rfl, hchain⟩ := ih.parTail hseq hfs
    refine ⟨peek ts :: (vs ++ ws), ?_, .more hfirst hk hchain⟩
    rw [List.cons_append, List.append_assoc, ← hvs]
    exact eq_cons_of_kind hk nofun
  · cases h
    exact ⟨[], rfl, by rw [List.append_nil]; exact .last hfirst⟩

theorem seq_sound (ih : Sound fuel) (h : Formula.seq (fuel + 1) scope ts = .ok (e, rest)) :
    ∃ us, ts = us ++ rest ∧ IsSeq scope us e := by
  rw [Formula.seq] at h
  obtain ⟨⟨first, rest₁⟩, hfirst, h⟩ := bind_ok h
  obtain ⟨us, rfl, hunary⟩ := ih.unary hfirst
  rw [peek_append hunary.ne_nil] at h
  obtain ⟨vs, rfl, hseq⟩ := ih.seqTail (.single hunary) h
  exact ⟨us ++ vs, by rw [List.append_assoc], hseq⟩

theorem seqTail_sound (ih : Sound fuel) {us : List Token} {left : Expr} (hleft : IsSeq scope us left)
    (h : Formula.seqTail (fuel + 1) scope (peek us).pos left ts = .ok (e, rest)) :
    ∃ vs, ts = vs ++ rest ∧ IsSeq scope (us ++ vs) e := by
  rw [Formula.seqTail] at h
  split at h
  · rename_i hk
    obtain ⟨⟨right, rest₁⟩, hright, h⟩ := bind_ok h
    obtain ⟨vs, hvs, hunary⟩ := ih.unary hright
    have hmore : IsSeq scope (us ++ peek ts :: vs) (.seq (peek us).pos left right) := .more hleft hk hunary
    rw [← peek_append hleft.ne_nil (peek ts :: vs)] at h hmore
    obtain ⟨ws, rfl, hseq⟩ := ih.seqTail hmore h
    refine ⟨peek ts :: (vs ++ ws), ?_, by simpa using hseq⟩
    rw [List.cons_append, List.append_assoc, ← hvs]
    exact eq_cons_of_kind hk nofun
  · cases h
    exact ⟨[], rfl, by rw [List.append_nil]; exact hleft⟩

/-- A binder after its word, whichever word it is. -/
theorem binder_sound (ih : Sound fuel) (least : Bool) {w : Token} (hw : w.kind = binderKind least)
    (h : (do
      let ((v, base), rest) ← binderHead ts
      let (body, rest) ← Formula.unary fuel (v :: scope) rest
      return (Expr.fix w.pos least v base body, rest)) = .ok (e, rest)) :
    ∃ us, w :: ts = us ++ rest ∧ IsUnary scope us e := by
  obtain ⟨⟨⟨v, base⟩, rest₁⟩, hhead, h⟩ := bind_ok h
  obtain ⟨tv, tc, tb, td, rfl, hv, harg, hc, hb, hd, rfl, rfl⟩ := binderHead_ok hhead
  obtain ⟨⟨body, rest₂⟩, hbody, h⟩ := bind_ok h
  cases h
  obtain ⟨us, rfl, hunary⟩ := ih.unary hbody
  exact ⟨w :: tv :: tc :: tb :: td :: us, rfl, .binder hw hv harg hc hb hd hunary⟩

theorem nameExpr_derivable (scope : List Bytes) {t : Token} (h : t.kind = .identifier) : IsUnary scope [t] (nameExpr scope t) := by
  unfold nameExpr
  split
  · rename_i hv
    simp only [Bool.and_eq_true, Option.isNone_iff_eq_none, List.contains_iff_mem] at hv
    exact .var h hv.1 hv.2
  · rename_i hv
    refine .atom h fun harg hmem => hv ?_
    simp [harg, hmem]

theorem unary_sound (ih : Sound fuel) (h : Formula.unary (fuel + 1) scope ts = .ok (e, rest)) :
    ∃ us, ts = us ++ rest ∧ IsUnary scope us e := by
  rw [Formula.unary] at h
  dsimp only at h
  have hcons : ∀ {kind : TokenKind}, (peek ts).kind = kind → kind ≠ .endOfInput → ts = peek ts :: advance ts :=
    fun hk hkind => eq_cons_of_kind hk hkind
  split at h
  case h_1 hk =>
    obtain ⟨s, hs, hsk, rfl⟩ := plainDiamond_ok h
    have hd : IsDiamond .forward [peek ts, s] none s.literal := .joined hk hsk
    exact ⟨[peek ts, s], by rw [hcons hk nofun, hs]; rfl, .diamond hd⟩
  case h_2 hk =>
    obtain ⟨s, hs, hsk, rfl⟩ := plainDiamond_ok h
    have hd : IsDiamond .backward [peek ts, s] none s.literal := .joined hk hsk
    exact ⟨[peek ts, s], by rw [hcons hk nofun, hs]; rfl, .diamond hd⟩
  case h_3 hk =>
    obtain ⟨us, phi, sigma, hus, hd, hpos, rfl⟩ := diamondBody_ok .forward hk h
    exact ⟨us, (hcons hk nofun).trans hus, hpos ▸ .diamond hd⟩
  case h_4 hk =>
    obtain ⟨us, phi, sigma, hus, hd, hpos, rfl⟩ := diamondBody_ok .backward hk h
    exact ⟨us, (hcons hk nofun).trans hus, hpos ▸ .diamond hd⟩
  case h_5 hk =>
    split at h
    · cases h
    · obtain ⟨⟨e', rest₁⟩, he, h⟩ := bind_ok h
      obtain ⟨us, hus, hexpr⟩ := ih.expr he
      dsimp only at h
      split at h
      · rename_i hc
        cases h
        refine ⟨peek ts :: (us ++ [peek rest₁]), ?_, .group hk hexpr hc⟩
        rw [List.cons_append, List.append_assoc, List.singleton_append, ← eq_cons_of_kind hc nofun, ← hus]
        exact hcons hk nofun
      · split at h
        · cases h
        · cases h
  case h_6 hk =>
    obtain ⟨us, hus, hunary⟩ := binder_sound ih true hk h
    exact ⟨us, (hcons hk nofun).trans hus, hunary⟩
  case h_7 hk =>
    obtain ⟨us, hus, hunary⟩ := binder_sound ih false hk h
    exact ⟨us, (hcons hk nofun).trans hus, hunary⟩
  case h_8 hk =>
    split at h
    · cases h
    · cases h
      exact ⟨[peek ts], hcons hk nofun, nameExpr_derivable scope hk⟩
  case h_9 => cases h

end

theorem sound (fuel : Nat) : Sound fuel := by
  induction fuel with
  | zero => exact sound_zero
  | succ fuel ih =>
    exact {
      expr := expr_sound ih
      parTail := parTail_sound ih
      seq := seq_sound ih
      seqTail := seqTail_sound ih
      unary := unary_sound ih }

/-! ## What the parser accepts -/

theorem plainDiamond_cons {s : Token} (p : Position) (direction : Direction) (rest : List Token) (h : s.kind = .identifier) :
    plainDiamond p direction (s :: rest) = .ok (.diamond p direction none s.literal, rest) := by
  rw [plainDiamond, operatorName_cons _ _ h]
  rfl

theorem diamondBody_apart (direction : Direction) {c s : Token} (p : Position) (what : String) (rest : List Token)
    (hc : c.kind = direction.closing) (hs : s.kind = .identifier) :
    diamondBody p direction direction.closing what (c :: s :: rest) = .ok (.diamond p direction none s.literal, rest) := by
  have hclosing : direction.closing ≠ .endOfInput ∧ direction.closing ≠ .identifier := by
    cases direction <;> exact ⟨nofun, nofun⟩
  have hname : optionalName (c :: s :: rest) = (none, c :: s :: rest) :=
    if_neg (show c.kind ≠ _ from hc ▸ hclosing.2)
  rw [diamondBody, hname]
  show (need direction.closing what _ >>= _) = _
  rw [need_cons _ _ hc hclosing.1]
  show (operatorName _ _ >>= _) = _
  rw [operatorName_cons _ _ hs]
  rfl

theorem diamondBody_labelled (direction : Direction) {q c s : Token} (p : Position) (what : String) (rest : List Token)
    (hq : q.kind = .identifier) (hc : c.kind = direction.closing) (hs : s.kind = .identifier) :
    diamondBody p direction direction.closing what (q :: c :: s :: rest) =
      .ok (.diamond p direction (some q.literal) s.literal, rest) := by
  have hclosing : direction.closing ≠ .endOfInput := by cases direction <;> nofun
  have hname : optionalName (q :: c :: s :: rest) = (some q.literal, c :: s :: rest) := by
    rw [optionalName, if_pos (show (peek (q :: c :: s :: rest)).kind = _ from hq), advance_cons (hq ▸ nofun)]
    rfl
  rw [diamondBody, hname]
  show (need direction.closing what _ >>= _) = _
  rw [need_cons _ _ hc hclosing]
  show (operatorName _ _ >>= _) = _
  rw [operatorName_cons _ _ hs]
  rfl

/-- A diamond is read, whatever follows. -/
theorem unary_diamond {direction : Direction} {us : List Token} {phi : Option Bytes} {sigma : Bytes}
    (h : IsDiamond direction us phi sigma) (fuel : Nat) (scope : List Bytes) (rest : List Token) :
    unary (fuel + 1) scope (us ++ rest) = .ok (.diamond (peek us).pos direction phi sigma, rest) := by
  cases h with
  | @joined d s hd hs =>
    obtain ⟨kind, text, arg, pos⟩ := d
    obtain rfl : kind = direction.joined := hd
    cases direction with
    | forward => exact plainDiamond_cons pos .forward rest hs
    | backward => exact plainDiamond_cons pos .backward rest hs
  | @apart o c s ho hc hs =>
    obtain ⟨kind, text, arg, pos⟩ := o
    obtain rfl : kind = direction.opening := ho
    cases direction with
    | forward => exact diamondBody_apart .forward pos _ rest hc hs
    | backward => exact diamondBody_apart .backward pos _ rest hc hs
  | @labelled o q c s ho hq hc hs =>
    obtain ⟨kind, text, arg, pos⟩ := o
    obtain rfl : kind = direction.opening := ho
    cases direction with
    | forward => exact diamondBody_labelled .forward pos _ rest hq hc hs
    | backward => exact diamondBody_labelled .backward pos _ rest hq hc hs

/-- A name is read unless it is followed by another one and a comma. -/
theorem unary_name {t : Token} (h : t.kind = .identifier) (fuel : Nat) (scope : List Bytes) {rest : List Token}
    (hrest : (peek rest).kind ≠ .identifier) : unary (fuel + 1) scope (t :: rest) = .ok (nameExpr scope t, rest) := by
  have hnext : ¬((peekAt (t :: rest) 1).kind = .identifier ∧ (peekAt (t :: rest) 2).kind = .comma) := by
    rintro ⟨h1, h2⟩
    cases rest with
    | nil =>
      rw [show peekAt [t] 2 = t from rfl, h] at h2
      cases h2
    | cons u rest => exact hrest h1
  obtain ⟨kind, text, arg, pos⟩ := t
  obtain rfl : kind = .identifier := h
  exact if_neg hnext

/-- A binder is read if its body is. -/
theorem unary_binder {least : Bool} {w v comma base dot : Token} {fuel : Nat} {scope : List Bytes} {ts rest : List Token}
    {body : Expr} (hw : w.kind = binderKind least) (hv : v.kind = .identifier) (harg : v.arg = none) (hc : comma.kind = .comma)
    (hb : base.kind = .identifier) (hd : dot.kind = .dot) (hbody : unary fuel (v.text :: scope) ts = .ok (body, rest)) :
    unary (fuel + 1) scope (w :: v :: comma :: base :: dot :: ts) = .ok (.fix w.pos least v.text base.literal body, rest) := by
  have hread : (do
      let ((v, base), rest) ← binderHead (v :: comma :: base :: dot :: ts)
      let (body, rest) ← unary fuel (v :: scope) rest
      return (Expr.fix w.pos least v base body, rest)) = .ok (.fix w.pos least v.text base.literal body, rest) := by
    rw [binderHead_cons _ hv harg hc hb hd]
    show (unary fuel (v.text :: scope) ts >>= _) = _
    rw [hbody]
    rfl
  obtain ⟨kind, text, arg, pos⟩ := w
  obtain rfl : kind = binderKind least := hw
  cases least with
  | true => exact hread
  | false => exact hread

/-- Parentheses are read if what is between them is. -/
theorem unary_group {o c : Token} {fuel : Nat} {scope : List Bytes} {ts rest : List Token} {e : Expr} (ho : o.kind = .openParen)
    (hfirst : (peek ts).kind ≠ .closeParen) (he : expr fuel scope ts = .ok (e, c :: rest)) (hc : c.kind = .closeParen) :
    unary (fuel + 1) scope (o :: ts) = .ok (e, rest) := by
  obtain ⟨kind, text, arg, pos⟩ := o
  obtain rfl : kind = .openParen := ho
  refine (if_neg hfirst).trans ?_
  show (expr fuel scope ts >>= _) = _
  rw [he]
  show (if c.kind = _ then Except.ok (e, advance (c :: rest)) else _) = _
  rw [if_pos hc, advance_cons (hc ▸ nofun)]

end GrammarAux

open GrammarAux

section

variable {scope : List Bytes} {us : List Token} {e : Expr}

/-- No phrase starts with a closing parenthesis. -/
theorem IsUnary.first (h : IsUnary scope us e) : (peek us).kind ≠ .closeParen := by
  cases h with
  | @diamond _ direction _ _ _ h =>
    cases h with
    | joined hd => rw [peek_cons, hd]; cases direction <;> nofun
    | apart ho => rw [peek_cons, ho]; cases direction <;> nofun
    | labelled ho => rw [peek_cons, ho]; cases direction <;> nofun
  | @binder _ least _ _ _ _ _ _ _ hw => rw [peek_cons, hw]; cases least <;> nofun
  | group ho => rw [peek_cons, ho]; nofun
  | var h => rw [peek_cons, h]; nofun
  | atom h => rw [peek_cons, h]; nofun

theorem IsSeq.first {scope : List Bytes} : ∀ {us : List Token} {e : Expr}, IsSeq scope us e → (peek us).kind ≠ .closeParen
  | _, _, .single h => h.first
  | _, _, .more h _ _ => by
    rw [peek_append h.ne_nil]
    exact IsSeq.first h

theorem IsChain.first {es : List Expr} (h : IsChain scope us es) : (peek us).kind ≠ .closeParen := by
  cases h with
  | last h => exact h.first
  | more h =>
    rw [peek_append h.ne_nil]
    exact h.first

theorem IsExpr.first (h : IsExpr scope us e) : (peek us).kind ≠ .closeParen := by
  cases h with
  | single h => exact h.first
  | parallel h => exact h.first

end

namespace GrammarAux

section

variable {fuel : Nat} {scope : List Bytes} {p : Position} {left : Expr} {rest : List Token}

/-- No further part is read where the joining sign does not follow. -/
theorem seqTail_done (hfuel : 0 < fuel) (hrest : (peek rest).kind ≠ .semicolon) :
    seqTail fuel scope p left rest = .ok (left, rest) := by
  cases fuel with
  | zero => exact absurd hfuel (Nat.lt_irrefl 0)
  | succ fuel => rw [seqTail, if_neg hrest]

theorem parTail_done (hfuel : 0 < fuel) (hrest : (peek rest).kind ≠ .parallel) : parTail fuel scope rest = .ok ([], rest) := by
  cases fuel with
  | zero => exact absurd hfuel (Nat.lt_irrefl 0)
  | succ fuel => rw [parTail, if_neg hrest]

end

end GrammarAux

mutual

/-- A derivable `unary` is read where no name follows. -/
theorem parses_unary {scope : List Bytes} : ∀ {us : List Token} {e : Expr}, IsUnary scope us e → ∀ (fuel : Nat) {rest : List Token},
    3 * us.length ≤ fuel + 2 → (peek rest).kind ≠ .identifier → unary fuel scope (us ++ rest) = .ok (e, rest)
  | us, _, .diamond h, fuel, rest, hfuel, _ => by
    have hpos := List.length_pos_iff.mpr h.ne_nil
    obtain ⟨fuel, rfl⟩ : ∃ f, fuel = f + 1 := ⟨fuel - 1, by omega⟩
    exact unary_diamond h fuel scope rest
  | _, _, .binder hw hv harg hc hb hd hbody, fuel, rest, hfuel, hrest => by
    simp only [List.length_cons] at hfuel
    obtain ⟨fuel, rfl⟩ : ∃ f, fuel = f + 1 := ⟨fuel - 1, by omega⟩
    exact unary_binder hw hv harg hc hb hd (parses_unary hbody fuel (by omega) hrest)
  | _, _, .group ho h hc, fuel, rest, hfuel, _ => by
    simp only [List.length_cons, List.length_append, List.length_nil] at hfuel
    obtain ⟨fuel, rfl⟩ : ∃ f, fuel = f + 1 := ⟨fuel - 1, by omega⟩
    rw [List.cons_append, List.append_assoc, List.singleton_append]
    refine unary_group ho ?_ (parses_expr h fuel (by omega) ?_ ?_ ?_) hc
    · rw [peek_append h.ne_nil]
      exact h.first
    all_goals
      rw [peek_cons, hc]
      nofun
  | _, _, .var h harg hmem, fuel, rest, hfuel, hrest => by
    rw [List.length_singleton] at hfuel
    obtain ⟨fuel, rfl⟩ : ∃ f, fuel = f + 1 := ⟨fuel - 1, by omega⟩
    rw [List.singleton_append, unary_name h fuel scope hrest, nameExpr, if_pos (by simp [harg, hmem])]
  | _, _, .atom h hout, fuel, rest, hfuel, hrest => by
    rw [List.length_singleton] at hfuel
    obtain ⟨fuel, rfl⟩ : ∃ f, fuel = f + 1 := ⟨fuel - 1, by omega⟩
    rw [List.singleton_append, unary_name h fuel scope hrest, nameExpr, if_neg (by simpa using hout)]

/-- A derivable `seq` is read where no name follows, and the parser then looks for a further part. Each part has cost one nested
call. -/
theorem parses_parts {scope : List Bytes} : ∀ {us : List Token} {e : Expr}, IsSeq scope us e → ∀ (fuel : Nat) {rest : List Token},
    3 * us.length ≤ fuel + 1 → (peek rest).kind ≠ .identifier →
      ∃ left, fuel ≤ left + us.length ∧ seq fuel scope (us ++ rest) = seqTail left scope (peek us).pos e rest
  | us, e, .single h, fuel, rest, hfuel, hrest => by
    have hpos := List.length_pos_iff.mpr h.ne_nil
    obtain ⟨fuel, rfl⟩ : ∃ f, fuel = f + 1 := ⟨fuel - 1, by omega⟩
    refine ⟨fuel, by omega, ?_⟩
    rw [seq, parses_unary h fuel (by omega) hrest, peek_append h.ne_nil]
    rfl
  | _, _, @IsSeq.more _ ts us t _ _ h ht hright, fuel, rest, hfuel, hrest => by
    rw [List.length_append, List.length_cons] at hfuel
    have hnext : (peek (t :: (us ++ rest))).kind ≠ .identifier := by
      rw [peek_cons, ht]
      nofun
    obtain ⟨left, hleft, hseq⟩ := parses_parts h fuel (by omega) hnext
    obtain ⟨left, rfl⟩ : ∃ f, left = f + 1 := ⟨left - 1, by omega⟩
    refine ⟨left, by rw [List.length_append, List.length_cons]; omega, ?_⟩
    rw [List.append_assoc, List.cons_append, hseq, seqTail, peek_cons, if_pos ht, advance_cons (ht ▸ nofun),
      parses_unary hright left (by omega) hrest, peek_append h.ne_nil]
    rfl

/-- A derivable chain is read part by part where neither a name nor a joining sign follows. -/
theorem parses_chain {scope : List Bytes} : ∀ {us : List Token} {es : List Expr}, IsChain scope us es →
    ∀ (fuel : Nat) {rest : List Token}, 3 * us.length ≤ fuel + 1 → (peek rest).kind ≠ .identifier →
      (peek rest).kind ≠ .semicolon → (peek rest).kind ≠ .parallel →
        ∃ first others mid, es = first :: others ∧ seq fuel scope (us ++ rest) = .ok (first, mid) ∧
          parTail fuel scope mid = .ok (others, rest)
  | us, _, .last h, fuel, rest, hfuel, hname, hsemi, hpar => by
    have hpos := List.length_pos_iff.mpr h.ne_nil
    obtain ⟨left, hleft, hseq⟩ := parses_parts h fuel hfuel hname
    refine ⟨_, [], rest, rfl, ?_, parTail_done (by omega) hpar⟩
    rw [hseq, seqTail_done (by omega) hsemi]
  | _, _, @IsChain.more _ ts us t _ _ h ht hrest, fuel, rest, hfuel, hname, hsemi, hpar => by
    rw [List.length_append, List.length_cons] at hfuel
    have hpos := List.length_pos_iff.mpr h.ne_nil
    have hnext : (peek (t :: (us ++ rest))).kind ≠ .identifier ∧ (peek (t :: (us ++ rest))).kind ≠ .semicolon := by
      rw [peek_cons, ht]
      exact ⟨nofun, nofun⟩
    obtain ⟨left, hleft, hseq⟩ := parses_parts h fuel (by omega) hnext.1
    obtain ⟨fuel, rfl⟩ : ∃ f, fuel = f + 1 := ⟨fuel - 1, by omega⟩
    obtain ⟨first, others, mid, rfl, hfirst, hothers⟩ := parses_chain hrest fuel (by omega) hname hsemi hpar
    refine ⟨_, _, t :: (us ++ rest), rfl, ?_, ?_⟩
    · rw [List.append_assoc, List.cons_append, hseq, seqTail_done (by omega) hnext.2]
    · rw [parTail, peek_cons, if_pos ht, advance_cons (ht ▸ nofun), hfirst]
      show (parTail fuel scope mid >>= _) = _
      rw [hothers]
      rfl

/-- A derivable `expr` is read where neither a name nor a joining sign follows. -/
theorem parses_expr {scope : List Bytes} : ∀ {us : List Token} {e : Expr}, IsExpr scope us e → ∀ (fuel : Nat) {rest : List Token},
    3 * us.length ≤ fuel → (peek rest).kind ≠ .identifier → (peek rest).kind ≠ .semicolon → (peek rest).kind ≠ .parallel →
      expr fuel scope (us ++ rest) = .ok (e, rest)
  | us, _, .single h, fuel, rest, hfuel, hname, hsemi, hpar => by
    have hpos := List.length_pos_iff.mpr h.ne_nil
    obtain ⟨fuel, rfl⟩ : ∃ f, fuel = f + 1 := ⟨fuel - 1, by omega⟩
    obtain ⟨left, hleft, hseq⟩ := parses_parts h fuel (by omega) hname
    rw [expr, hseq, seqTail_done (by omega) hsemi]
    show (parTail fuel scope rest >>= _) = _
    rw [parTail_done (by omega) hpar]
    rfl
  | us, _, .parallel h hlen, fuel, rest, hfuel, hname, hsemi, hpar => by
    have hpos := List.length_pos_iff.mpr h.ne_nil
    obtain ⟨fuel, rfl⟩ : ∃ f, fuel = f + 1 := ⟨fuel - 1, by omega⟩
    obtain ⟨first, others, mid, rfl, hfirst, hothers⟩ := parses_chain h fuel (by omega) hname hsemi hpar
    have hne : ¬others.isEmpty = true := by
      rw [List.isEmpty_iff]
      rintro rfl
      exact absurd hlen (by simp)
    rw [expr, hfirst]
    show (parTail fuel scope mid >>= _) = _
    rw [hothers]
    show (if others.isEmpty = true then _ else Except.ok (Expr.par (peek (us ++ rest)).pos (first :: others), rest)) = _
    rw [if_neg hne, peek_append h.ne_nil]

end

/-! ## The parser and the grammar -/

/-- Derivable tokens are parsed where the end token follows. -/
theorem IsExpr.parseTokens {us : List Token} {e : Expr} (h : IsExpr [] us e) {t : Token} (ht : t.kind = .endOfInput)
    (rest : List Token) : parseTokens (us ++ t :: rest) = .ok e := by
  have hstop : (peek (t :: rest)).kind = .endOfInput := ht
  rw [Formula.parseTokens, parses_expr h _ (by rw [List.length_append]; omega)]
  · show (if (peek (t :: rest)).kind = _ then Except.ok e else _) = _
    rw [if_pos hstop]
  all_goals
    rw [hstop]
    nofun

theorem IsDiamond.noEnd {direction : Direction} {us : List Token} {phi : Option Bytes} {sigma : Bytes}
    (h : IsDiamond direction us phi sigma) : ∀ t ∈ us, t.kind ≠ .endOfInput := by
  cases h with
  | joined hd hs =>
    simp only [List.forall_mem_cons, hd, hs]
    cases direction <;> exact ⟨nofun, nofun, nofun⟩
  | apart ho hc hs =>
    simp only [List.forall_mem_cons, ho, hc, hs]
    cases direction <;> exact ⟨nofun, nofun, nofun, nofun⟩
  | labelled ho hp hc hs =>
    simp only [List.forall_mem_cons, ho, hp, hc, hs]
    cases direction <;> exact ⟨nofun, nofun, nofun, nofun, nofun⟩

mutual

/-- The end token is in no phrase. -/
theorem IsUnary.noEnd : ∀ {scope : List Bytes} {us : List Token} {e : Expr}, IsUnary scope us e → ∀ t ∈ us, t.kind ≠ .endOfInput
  | _, _, _, .diamond h => h.noEnd
  | _, _, _, @IsUnary.binder _ least _ _ _ _ _ _ _ hw hv _ hc hb hd hbody => by
    simp only [List.forall_mem_cons, hw, hv, hc, hb, hd]
    exact ⟨by cases least <;> nofun, nofun, nofun, nofun, nofun, hbody.noEnd⟩
  | _, _, _, .group ho h hc => by
    simp only [List.forall_mem_cons, List.forall_mem_append, ho, hc]
    exact ⟨nofun, h.noEnd, nofun, nofun⟩
  | _, _, _, .var h _ _ => by
    rw [List.forall_mem_singleton, h]
    nofun
  | _, _, _, .atom h _ => by
    rw [List.forall_mem_singleton, h]
    nofun

theorem IsSeq.noEnd : ∀ {scope : List Bytes} {us : List Token} {e : Expr}, IsSeq scope us e → ∀ t ∈ us, t.kind ≠ .endOfInput
  | _, _, _, .single h => h.noEnd
  | _, _, _, .more h ht hright =>
    List.forall_mem_append.mpr ⟨h.noEnd, List.forall_mem_cons.mpr ⟨ht ▸ nofun, hright.noEnd⟩⟩

theorem IsChain.noEnd : ∀ {scope : List Bytes} {us : List Token} {es : List Expr}, IsChain scope us es →
    ∀ t ∈ us, t.kind ≠ .endOfInput
  | _, _, _, .last h => h.noEnd
  | _, _, _, .more h ht hrest =>
    List.forall_mem_append.mpr ⟨h.noEnd, List.forall_mem_cons.mpr ⟨ht ▸ nofun, hrest.noEnd⟩⟩

theorem IsExpr.noEnd : ∀ {scope : List Bytes} {us : List Token} {e : Expr}, IsExpr scope us e → ∀ t ∈ us, t.kind ≠ .endOfInput
  | _, _, _, .single h => h.noEnd
  | _, _, _, .parallel h _ => h.noEnd

end

/-- What is parsed is derivable, up to the first end token. -/
theorem isExpr_of_parseTokens {ts rest : List Token} {t : Token} {e : Expr} (hts : ∀ u ∈ ts, u.kind ≠ .endOfInput)
    (ht : t.kind = .endOfInput) (h : Formula.parseTokens (ts ++ t :: rest) = .ok e) : IsExpr [] ts e := by
  obtain ⟨⟨e', left⟩, he, h⟩ := bind_ok h
  dsimp only at h
  split at h
  · rename_i hstop
    cases h
    obtain ⟨us, hus, hexpr⟩ := (sound _).expr he
    rcases List.append_eq_append_iff.mp hus with ⟨as, rfl, has⟩ | ⟨bs, rfl, hbs⟩
    · cases as with
      | nil => rwa [List.append_nil] at hexpr
      | cons a as =>
        obtain rfl := (List.cons.inj has).1
        exact absurd ht (hexpr.noEnd t (List.mem_append_right _ List.mem_cons_self))
    · cases bs with
      | nil => rwa [List.append_nil]
      | cons b bs =>
        rw [hbs] at hstop
        exact absurd hstop (hts b (List.mem_append_right _ List.mem_cons_self))
  · cases h

/-- The parser accepts exactly the grammar: on tokens before an end token it gives the trees that are derivable for them, which are
one at most. -/
theorem parseTokens_ok_iff {ts rest : List Token} {t : Token} (hts : ∀ u ∈ ts, u.kind ≠ .endOfInput) (ht : t.kind = .endOfInput) :
    (∀ e, parseTokens (ts ++ t :: rest) = .ok e ↔ IsExpr [] ts e) ∧ ∀ e e', IsExpr [] ts e → IsExpr [] ts e' → e = e' := by
  refine ⟨fun e => ⟨isExpr_of_parseTokens hts ht, fun h => h.parseTokens ht rest⟩, fun e e' h h' => ?_⟩
  have heq : Except.ok e = Except.ok e' := (h.parseTokens ht rest).symm.trans (h'.parseTokens ht rest)
  exact Except.ok.inj heq

namespace Sample

/-- A token of some kind that was built without a text. -/
def token (kind : TokenKind) (text : String) : Token :=
  ⟨kind, Bytes.ofString text, none, Position.none⟩

/-- The tokens of `mu X,b.(X;| >or)||X`. -/
def looped : List Token :=
  [token .mu "mu", token .identifier "X", token .comma ",", token .identifier "b", token .dot ".", token .openParen "(",
    token .identifier "X", token .semicolon ";", token .bar "|", token .greater ">", token .identifier "or", token .closeParen ")",
    token .parallel "||", token .identifier "X"]

/-- The first `X` is the variable of the binder, whose body ends at the parenthesis, and the last one is an operator. -/
def loopedExpr : Expr :=
  .par Position.none
    [.fix Position.none true (Bytes.ofString "X") (Bytes.ofString "b")
      (.seq Position.none (.var Position.none (Bytes.ofString "X"))
        (.diamond Position.none .forward none (Bytes.ofString "or"))),
      .atom Position.none (Bytes.ofString "X") none]

theorem looped_derivable : IsExpr [] looped loopedExpr := by
  have hvar : IsUnary [Bytes.ofString "X"] [token .identifier "X"] (.var Position.none (Bytes.ofString "X")) :=
    .var rfl rfl List.mem_cons_self
  have hdiamond : IsDiamond .forward [token .bar "|", token .greater ">", token .identifier "or"] none (Bytes.ofString "or") :=
    .apart rfl rfl rfl
  have hbody := IsExpr.single (.more (.single hvar) (show (token .semicolon ";").kind = _ from rfl) (.diamond hdiamond))
  have hgroup := IsUnary.group (show (token .openParen "(").kind = _ from rfl) hbody (show (token .closeParen ")").kind = _ from rfl)
  have hfix : IsUnary [] _ _ :=
    .binder (show (token .mu "mu").kind = binderKind true from rfl) (show (token .identifier "X").kind = _ from rfl) rfl
      (show (token .comma ",").kind = _ from rfl) (show (token .identifier "b").kind = _ from rfl)
      (show (token .dot ".").kind = _ from rfl) hgroup
  have hatom : IsUnary [] [token .identifier "X"] (.atom Position.none (Bytes.ofString "X") none) := .atom rfl nofun
  exact .parallel (.more (.single hfix) (show (token .parallel "||").kind = _ from rfl) (.last (.single hatom))) (Nat.le_refl 2)

end Sample

/-- The tokens of `mu X,b.(X;| >or)||X` before an end token are parsed as the one tree that is derivable for them. -/
theorem parseTokens_ok_iff_sample :
    (∀ u ∈ Sample.looped, u.kind ≠ .endOfInput) ∧
      parseTokens (Sample.looped ++ [Token.eof Position.none]) = .ok Sample.loopedExpr ∧
      ∀ e, IsExpr [] Sample.looped e → e = Sample.loopedExpr := by
  have hnoEnd : ∀ u ∈ Sample.looped, u.kind ≠ .endOfInput := by decide
  obtain ⟨hiff, hone⟩ := @parseTokens_ok_iff _ [] (Token.eof Position.none) hnoEnd rfl
  exact ⟨hnoEnd, (hiff _).mpr Sample.looped_derivable, fun e he => hone e _ he Sample.looped_derivable⟩

end ModalGraph.Formula
