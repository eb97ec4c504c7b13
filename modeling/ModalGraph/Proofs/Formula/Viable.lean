import ModalGraph.Proofs.Formula.Reading

/-!
# Where the parser stops

The parser stops at the first token that no formula goes on with: the tokens before it are viable, and with it they are not any more
(`parseTokens_error_stopsAt`). Two failures come earlier, at a token that could stand there: a parenthesis that is still open at the end
of the input, and a name that is taken for the word of a binder.

The functions of the parser that call each other are told together, by induction on the fuel, which lasts for all tokens (`tells`).
-/

namespace ModalGraph.Formula

/-- A failure that is at an earlier token than the one that shows it: an opening parenthesis is still open at the end of the input, or a
name is taken for the word of a binder. -/
def Early (u : Token) (fault : SyntaxFault) : Prop :=
  (fault = .unbalanced ∧ u.kind ≠ .closeParen) ∨ ∃ word, fault = .unknownBinder word

/-- What a failure at the token `u` says about the tokens `us` before it, where `ts` are all tokens but the end token. -/
structure StopsAt (ts us : List Token) (u : Token) (fault : SyntaxFault) : Prop where
  /-- The tokens before it can be extended to those of a formula. -/
  viable : Viable us
  /-- With it they cannot, and at the end they are those of no formula. -/
  wrong : ¬Early u fault → if u.kind = .endOfInput then ∀ e, ¬IsExpr [] ts e else ¬Viable (us ++ [u])
  /-- A parenthesis that is still open at the end is never closed. -/
  opens : fault = .unbalanced → u.kind ≠ .closeParen → u.kind = .openParen ∧ ∃ vs, ts = us ++ u :: vs ∧ NeverCloses vs
  /-- A name is taken for the word of a binder before another name and a comma. -/
  binder : ∀ word, fault = .unknownBinder word → word = u.text ∧ u.kind = .identifier ∧
    ∃ v c vs, ts = us ++ u :: v :: c :: vs ∧ v.kind = .identifier ∧ c.kind = .comma

namespace ViableAux

open GrammarAux

/-! ## The parser -/

/-- The functions of the parser, with any fuel and below any binders. -/
def units : Readers (Nat × List Bytes) Expr :=
  fun i => unary i.1 i.2

def seqs : Readers (Nat × List Bytes) Expr :=
  fun i => seq i.1 i.2

def seqTails : Readers ((Nat × List Bytes) × Position × Expr) Expr :=
  fun i => seqTail i.1.1 i.1.2 i.2.1 i.2.2

def parTails : Readers (Nat × List Bytes) (List Expr) :=
  fun i => parTail i.1 i.2

def exprs : Readers (Nat × List Bytes) Expr :=
  fun i => expr i.1 i.2

/-- What a `unary` that is read has gone through after its first token. -/
theorem units_ok {i : Nat × List Bytes} {t : Token} {ts r : List Token} {c : Expr} (h : units i (t :: ts) = .ok (c, r)) :
    match t.kind with
    | .rightDiamond | .leftDiamond => ∃ sigma, operatorName "aggregation name" ts = .ok (sigma, r)
    | .bar => diamondBody t.pos .forward .greater "'>' closing right diamond" ts = .ok (c, r)
    | .less => diamondBody t.pos .backward .bar "'|' closing left diamond" ts = .ok (c, r)
    | .openParen => (peek ts).kind ≠ .closeParen ∧ ∃ j e r', exprs j ts = .ok (e, r') ∧ (peek r').kind = .closeParen ∧ r = advance r'
    | .mu | .nu => ∃ head r' j body, binderHead ts = .ok (head, r') ∧ units j r' = .ok (body, r)
    | .identifier => r = ts
    | _ => False := by
  obtain ⟨fuel, scope⟩ := i
  cases fuel with
  | zero => rw [units, unary] at h; cases h
  | succ fuel =>
    rw [units, unary] at h
    dsimp only [peek_cons] at h
    split at h
    case h_1 hk | h_2 hk =>
      rw [advance_cons (hk ▸ by decide)] at h
      obtain ⟨⟨sigma, r'⟩, hs, h⟩ := bind_ok h
      cases h
      have hread : ∃ sigma, operatorName "aggregation name" ts = .ok (sigma, r) := ⟨sigma, hs⟩
      simpa only [hk] using hread
    case h_3 hk | h_4 hk =>
      rw [advance_cons (hk ▸ by decide)] at h
      simpa only [hk] using h
    case h_5 hk =>
      rw [advance_cons (hk ▸ by decide)] at h
      split at h
      · cases h
      rename_i hfirst
      obtain ⟨⟨e, r'⟩, he, h⟩ := bind_ok h
      dsimp only at h
      split at h
      · rename_i hclose
        cases h
        have hgroup : (peek ts).kind ≠ .closeParen ∧ ∃ j e r'', exprs j ts = .ok (e, r'') ∧ (peek r'').kind = .closeParen ∧
            advance r' = advance r'' := ⟨hfirst, (fuel, scope), c, r', he, hclose, rfl⟩
        simpa only [hk] using hgroup
      · split at h <;> cases h
    case h_6 hk | h_7 hk =>
      rw [advance_cons (hk ▸ by decide)] at h
      obtain ⟨⟨⟨v, base⟩, r'⟩, hhead, h⟩ := bind_ok h
      obtain ⟨⟨body, r''⟩, hbody, h⟩ := bind_ok h
      cases h
      have hscope : ∃ head r' j body, binderHead ts = .ok (head, r') ∧ units j r' = .ok (body, r'') :=
        ⟨(v, base), r', (fuel, v :: scope), body, hhead, hbody⟩
      simpa only [hk] using hscope
    case h_8 hk =>
      rw [advance_cons (hk ▸ by decide)] at h
      split at h
      · cases h
      · cases h
        cases t
        cases hk
        rfl
    case h_9 => cases h

theorem seqTails_ok {i : (Nat × List Bytes) × Position × Expr} {ts r : List Token} {c : Expr} (h : seqTails i ts = .ok (c, r)) :
    if (peek ts).kind = .semicolon then
      ∃ j k e r', units j (advance ts) = .ok (e, r') ∧ seqTails k r' = .ok (c, r)
    else r = ts := by
  obtain ⟨⟨fuel, scope⟩, p, left⟩ := i
  cases fuel with
  | zero => rw [seqTails, seqTail] at h; cases h
  | succ fuel =>
    rw [seqTails, seqTail] at h
    split at h
    · rename_i hk
      obtain ⟨⟨e, r'⟩, he, h⟩ := bind_ok h
      rw [if_pos hk]
      exact ⟨(fuel, scope), ((fuel, scope), p, .seq p left e), e, r', he, h⟩
    · rename_i hk
      cases h
      rw [if_neg hk]

theorem parTails_ok {i : Nat × List Bytes} {ts r : List Token} {es : List Expr} (h : parTails i ts = .ok (es, r)) :
    if (peek ts).kind = .parallel then
      ∃ j k e es r', seqs j (advance ts) = .ok (e, r') ∧ parTails k r' = .ok (es, r)
    else r = ts := by
  obtain ⟨fuel, scope⟩ := i
  cases fuel with
  | zero => rw [parTails, parTail] at h; cases h
  | succ fuel =>
    rw [parTails, parTail] at h
    split at h
    · rename_i hk
      obtain ⟨⟨e, r'⟩, he, h⟩ := bind_ok h
      obtain ⟨⟨es', r''⟩, hes, h⟩ := bind_ok h
      cases h
      rw [if_pos hk]
      exact ⟨(fuel, scope), (fuel, scope), e, es', r', he, hes⟩
    · rename_i hk
      cases h
      rw [if_neg hk]

theorem seqs_ok {i : Nat × List Bytes} {ts r : List Token} {c : Expr} (h : seqs i ts = .ok (c, r)) :
    ∃ j k e r', units j ts = .ok (e, r') ∧ seqTails k r' = .ok (c, r) := by
  obtain ⟨fuel, scope⟩ := i
  cases fuel with
  | zero => rw [seqs, seq] at h; cases h
  | succ fuel =>
    rw [seqs, seq] at h
    obtain ⟨⟨e, r'⟩, he, h⟩ := bind_ok h
    exact ⟨(fuel, scope), ((fuel, scope), (peek ts).pos, e), e, r', he, h⟩

theorem exprs_ok {i : Nat × List Bytes} {ts r : List Token} {c : Expr} (h : exprs i ts = .ok (c, r)) :
    ∃ j k e es r', seqs j ts = .ok (e, r') ∧ parTails k r' = .ok (es, r) := by
  obtain ⟨fuel, scope⟩ := i
  cases fuel with
  | zero => rw [exprs, expr] at h; cases h
  | succ fuel =>
    rw [exprs, expr] at h
    obtain ⟨⟨e, r'⟩, he, h⟩ := bind_ok h
    obtain ⟨⟨es, r''⟩, hes, h⟩ := bind_ok h
    refine ⟨(fuel, scope), (fuel, scope), e, es, r', he, ?_⟩
    dsimp only at h
    split at h <;> cases h <;> exact hes

/-- All functions of the parser, with fuel for the tokens that are left. -/
structure Tells (fuel : Nat) : Prop where
  expr : ∀ {scope ts}, Closed ts → 3 * ts.length + 3 ≤ fuel → Told Chain exprs ts (Formula.expr fuel scope ts)
  parTail : ∀ {scope ts}, Closed ts → 3 * ts.length + 2 ≤ fuel → Told ParTail parTails ts (Formula.parTail fuel scope ts)
  seq : ∀ {scope ts}, Closed ts → 3 * ts.length + 2 ≤ fuel → Told Seq seqs ts (Formula.seq fuel scope ts)
  seqTail : ∀ {scope p left ts}, Closed ts → 3 * ts.length + 1 ≤ fuel →
    Told SeqTail seqTails ts (Formula.seqTail fuel scope p left ts)
  unary : ∀ {scope ts}, Closed ts → 3 * ts.length + 1 ≤ fuel → Told Unary units ts (Formula.unary fuel scope ts)

theorem tells_zero : Tells 0 where
  expr _ h := absurd h (by omega)
  parTail _ h := absurd h (by omega)
  seq _ h := absurd h (by omega)
  seqTail _ h := absurd h (by omega)
  unary _ h := absurd h (by omega)

section

variable {fuel : Nat} {scope : List Bytes} {ts : List Token}

theorem exists_unary : ∃ us, Unary us :=
  ⟨[⟨.identifier, [], none, Position.none⟩], unary_of_name rfl⟩

theorem expr_told (ih : Tells fuel) (h : Closed ts) (hfuel : 3 * ts.length + 3 ≤ fuel + 1) :
    Told Chain exprs ts (expr (fuel + 1) scope ts) := by
  rw [expr]
  refine (ih.seq h (by omega)).bind (Q := ParTail) (g := parTails) ?_ ?_ ⟨[], .nil⟩ fun _ _ => Seq.chain_tail
  · rintro first us rest rfl hrest
    rw [List.length_append] at hfuel
    refine (ih.parTail hrest (by omega)).value fun others rest => ?_
    dsimp only
    split <;> exact ⟨_, rfl⟩
  · intro i ts' c r' hc
    obtain ⟨j, k, e, es, r, he, hes⟩ := exprs_ok hc
    exact ⟨j, e, r, k, es, he, hes⟩

theorem seq_told (ih : Tells fuel) (h : Closed ts) (hfuel : 3 * ts.length + 2 ≤ fuel + 1) :
    Told Seq seqs ts (seq (fuel + 1) scope ts) := by
  rw [seq]
  refine (ih.unary h (by omega)).bind (Q := SeqTail) (g := seqTails) ?_ ?_ ⟨[], .nil⟩ fun _ _ hus => hus.seq.append_tail
  · rintro first us rest rfl hrest
    rw [List.length_append] at hfuel
    exact ih.seqTail hrest (by omega)
  · intro i ts' c r' hc
    obtain ⟨j, k, e, r, he, htail⟩ := seqs_ok hc
    exact ⟨j, e, r, k, c, he, htail⟩

theorem seqTail_told (ih : Tells fuel) {p : Position} {left : Expr} (h : Closed ts) (hfuel : 3 * ts.length + 1 ≤ fuel + 1) :
    Told SeqTail seqTails ts (seqTail (fuel + 1) scope p left ts) := by
  obtain ⟨rest, hts⟩ := h.first
  rw [seqTail]
  split
  · rename_i hk
    generalize peek ts = t at hts hk
    subst hts
    have hrest : Closed rest := h.tail (hk ▸ by decide)
    rw [List.length_cons] at hfuel
    rw [advance_cons (hk ▸ by decide)]
    have htail : Told (fun us => SeqTail (t :: us)) (fun i us => seqTails i (t :: us)) rest
        (unary fuel scope rest >>= fun q => seqTail fuel scope p (.seq p left q.1) q.2) := by
      refine (ih.unary hrest (by omega)).bind (Q := SeqTail) (g := seqTails) ?_ ?_ ⟨[], .nil⟩ fun _ _ => .cons hk
      · rintro right us rest rfl hrest
        rw [List.length_append] at hfuel
        exact ih.seqTail hrest (by omega)
      · intro i ts' c r' hc
        have hok := seqTails_ok hc
        rw [peek_cons, if_pos hk, advance_cons (hk ▸ by decide)] at hok
        obtain ⟨j, k, e, r, he, htail⟩ := hok
        exact ⟨j, e, r, k, c, he, htail⟩
    exact htail.after (fun i _ c _ hc => ⟨i, c, hc⟩) fun _ => id
  · rename_i hk
    refine ⟨h, [], rfl, .nil, fun i rest' hkind c r hc => ?_⟩
    have hok := seqTails_ok hc
    rwa [List.nil_append, hkind, if_neg hk] at hok

theorem parTail_told (ih : Tells fuel) (h : Closed ts) (hfuel : 3 * ts.length + 2 ≤ fuel + 1) :
    Told ParTail parTails ts (parTail (fuel + 1) scope ts) := by
  obtain ⟨rest, hts⟩ := h.first
  rw [parTail]
  split
  · rename_i hk
    generalize peek ts = t at hts hk
    subst hts
    have hrest : Closed rest := h.tail (hk ▸ by decide)
    rw [List.length_cons] at hfuel
    rw [advance_cons (hk ▸ by decide)]
    have htail : Told (fun us => ParTail (t :: us)) (fun i us => parTails i (t :: us)) rest
        (seq fuel scope rest >>= fun q => parTail fuel scope q.2 >>= fun q' => .ok (q.1 :: q'.1, q'.2)) := by
      refine (ih.seq hrest (by omega)).bind (Q := ParTail) (g := parTails) ?_ ?_ ⟨[], .nil⟩ fun _ _ => .cons hk
      · rintro e us rest rfl hrest
        rw [List.length_append] at hfuel
        exact (ih.parTail hrest (by omega)).value fun _ _ => ⟨_, rfl⟩
      · intro i ts' c r' hc
        have hok := parTails_ok hc
        rw [peek_cons, if_pos hk, advance_cons (hk ▸ by decide)] at hok
        obtain ⟨j, k, e, es, r, he, htail⟩ := hok
        exact ⟨j, e, r, k, es, he, htail⟩
    exact htail.after (fun i _ c _ hc => ⟨i, c, hc⟩) fun _ => id
  · rename_i hk
    refine ⟨h, [], rfl, .nil, fun i rest' hkind c r hc => ?_⟩
    have hok := parTails_ok hc
    rwa [List.nil_append, hkind, if_neg hk] at hok

/-! ### A part that is no composition -/

section

variable {t : Token}

/-- A diamond with one sign. -/
theorem told_joined (direction : Direction) (ht : t.kind = direction.joined) (h : Closed ts) :
    Told Unary units (t :: ts) (plainDiamond t.pos direction ts) := by
  refine (told_plainDiamond t.pos direction h).after (fun i ts' c r hc => ?_) fun us hus scope => ?_
  · have hok := units_ok hc
    cases direction <;> simp only [ht, Direction.joined] at hok <;> exact ⟨_, hok⟩
  · obtain ⟨s, rfl, hs⟩ := List.map_eq_singleton_iff.mp hus
    exact ⟨_, .diamond (.joined ht hs)⟩

/-- A diamond with two signs. -/
theorem told_apart (direction : Direction) (what : String) (ht : t.kind = direction.opening) (h : Closed ts) :
    Told Unary units (t :: ts) (diamondBody t.pos direction direction.closing what ts) := by
  have hclosing : direction.closing ≠ .endOfInput := by cases direction <;> decide
  refine (told_diamondBody t.pos direction what hclosing h).after (fun i ts' c r hc => ?_) fun us hus scope => ?_
  · have hok := units_ok hc
    cases direction <;> simp only [ht, Direction.opening] at hok <;> exact ⟨_, c, hok⟩
  · rcases hus with hus | hus
    · obtain ⟨c, us, rfl, hc, hus⟩ := List.map_eq_cons_iff.mp hus
      obtain ⟨s, rfl, hs⟩ := List.map_eq_singleton_iff.mp hus
      exact ⟨_, .diamond (.apart ht hc hs)⟩
    · obtain ⟨q, us, rfl, hq, hus⟩ := List.map_eq_cons_iff.mp hus
      obtain ⟨c, us, rfl, hc, hus⟩ := List.map_eq_cons_iff.mp hus
      obtain ⟨s, rfl, hs⟩ := List.map_eq_singleton_iff.mp hus
      exact ⟨_, .diamond (.labelled ht hq hc hs)⟩

/-- A fixpoint of either kind. -/
theorem told_binder (ih : Tells fuel) (least : Bool) (ht : t.kind = binderKind least) (h : Closed ts) (hfuel : 3 * ts.length + 1 ≤ fuel) :
    Told Unary units (t :: ts) (do
      let ((v, base), rest) ← binderHead ts
      let (body, rest) ← unary fuel (v :: scope) rest
      return (Expr.fix t.pos least v base body, rest)) := by
  have hafter : Told (fun us => Unary (t :: us)) (fun i us => units i (t :: us)) ts
      (binderHead ts >>= fun q => unary fuel (q.1.1 :: scope) q.2 >>= fun q' => .ok (Expr.fix t.pos least q.1.1 q.1.2 q'.1, q'.2)) := by
    refine (told_binderHead h).bind (Q := Unary) (g := units) ?_ ?_ exists_unary ?_
    · rintro head us rest rfl hrest
      rw [List.length_append] at hfuel
      exact (ih.unary hrest (by omega)).value fun _ _ => ⟨_, rfl⟩
    · intro i ts' c r' hc
      have hok := units_ok hc
      have hread : ∃ head r j body, binderHead ts' = .ok (head, r) ∧ units j r = .ok (body, r') := by
        cases least <;> simp only [ht, binderKind, if_true, Bool.false_eq_true, if_false] at hok <;> exact hok
      obtain ⟨head, r, j, body, hhead, hbody⟩ := hread
      exact ⟨(), head, r, j, body, hhead, hbody⟩
    · rintro us vs ⟨v, ws, rfl, hv, harg, hws⟩ hvs scope
      obtain ⟨comma, ws, rfl, hcomma, hws⟩ := List.map_eq_cons_iff.mp hws
      obtain ⟨base, ws, rfl, hbase, hws⟩ := List.map_eq_cons_iff.mp hws
      obtain ⟨dot, rfl, hdot⟩ := List.map_eq_singleton_iff.mp hws
      obtain ⟨body, hbody⟩ := hvs (v.text :: scope)
      exact ⟨_, .binder ht hv harg hcomma hbase hdot hbody⟩
  exact hafter.after (fun i _ c _ hc => ⟨i, c, hc⟩) fun _ => id

/-- What stands between parentheses: the failure may be at the opening one, which is then never closed. -/
theorem told_group (ih : Tells fuel) (ht : t.kind = .openParen) (h : Closed ts) (hfuel : 3 * ts.length + 3 ≤ fuel)
    (hfirst : (peek ts).kind ≠ .closeParen) :
    Told Unary units (t :: ts) (do
      let (e, rest) ← expr fuel scope ts
      let c := peek rest
      if c.kind = .closeParen then return (e, advance rest)
      else if c.kind = .endOfInput then throw (t.error .unbalanced)
      else throw (c.error (.expected "')'"))) := by
  have hinner : ∀ {i ts' c r}, units i (t :: ts') = .ok (c, r) →
      ∃ j e r', exprs j ts' = .ok (e, r') ∧ (peek r').kind = .closeParen ∧ r = advance r' := by
    intro i ts' c r hc
    have hok := units_ok hc
    simp only [ht] at hok
    exact hok.2
  have hclosing : ∃ c : Token, c.kind = .closeParen := ⟨⟨.closeParen, [], none, Position.none⟩, rfl⟩
  have hexpr : Told Chain exprs ts (expr fuel scope ts) := ih.expr h hfuel
  cases hres : expr fuel scope ts with
  | error e =>
    rw [hres] at hexpr
    obtain ⟨us, u, rest, rfl, he, ⟨vs, hvs⟩, hb⟩ := hexpr
    obtain ⟨c, hc⟩ := hclosing
    refine ⟨t :: us, u, rest, rfl, he, ⟨vs ++ [c], ?_⟩, hb.imp fun hstuck i vs' x hx => ?_⟩
    · rw [List.cons_append, ← List.append_assoc]
      exact hvs.group ht hc
    · obtain ⟨j, e', r', he', -⟩ := hinner (c := x.1) (r := x.2) hx
      exact hstuck j vs' _ he'
  | ok p =>
    obtain ⟨e, rest⟩ := p
    rw [hres] at hexpr
    obtain ⟨hclosed, us, rfl, hus, hkeeps⟩ := hexpr
    obtain ⟨back, hrest⟩ := hclosed.first
    generalize hu : peek rest = u at hrest
    subst hrest
    show Told Unary units _ (if u.kind = _ then Except.ok (e, advance (u :: back)) else if u.kind = _ then _ else _)
    split
    · rename_i hclose
      rw [advance_cons (hclose ▸ by decide)]
      refine ⟨hclosed.tail (hclose ▸ by decide), t :: (us ++ [u]), by simp, hus.group ht hclose, fun i rest' _ c r hc => ?_⟩
      rw [List.cons_append, List.append_assoc] at hc
      obtain ⟨j, e', r', he', -, rfl⟩ := hinner hc
      obtain rfl := hkeeps j ([u] ++ rest') rfl e' r' he'
      exact advance_cons (hclose ▸ by decide) rest'
    · split
      · rename_i hend
        obtain ⟨e', he'⟩ := hus.expr []
        exact ⟨[], t, us ++ u :: back, rfl, rfl, exists_unary, ht, us, u, back, rfl, hend, he'.noEnd, (balanced_expr he').never⟩
      · rename_i hother _
        obtain ⟨c, hc⟩ := hclosing
        refine ⟨t :: us, u, back, rfl, rfl, ⟨[c], hus.group ht hc⟩, .inr fun i vs x hx => ?_⟩
        rw [List.cons_append, List.cons_append, List.append_assoc] at hx
        obtain ⟨j, e', r', he', hclose, -⟩ := hinner (c := x.1) (r := x.2) hx
        obtain rfl := hkeeps j ([u] ++ vs) rfl e' r' he'
        exact hother hclose

/-- A name, which may be taken for the word of a binder. -/
theorem told_name (ht : t.kind = .identifier) (h : Closed ts) :
    Told Unary units (t :: ts) (if (peekAt (t :: ts) 1).kind = .identifier ∧ (peekAt (t :: ts) 2).kind = .comma
      then .error (t.error (.unknownBinder t.text)) else .ok (nameExpr scope t, ts)) := by
  split
  · rename_i hnext
    refine ⟨[], t, ts, rfl, rfl, exists_unary, rfl, ht, ?_⟩
    obtain ⟨back, hts⟩ := h.first
    generalize peek ts = v at hts
    subst hts
    have hv : v.kind = .identifier := hnext.1
    obtain ⟨back', hback⟩ := (h.tail (hv ▸ by decide)).first
    generalize peek back = c at hback
    subst hback
    exact ⟨v, c, back', rfl, hv, hnext.2⟩
  · refine ⟨h, [t], rfl, unary_of_name ht, fun i rest' _ c r hc => ?_⟩
    have hok := units_ok (show units i (t :: rest') = _ from hc)
    simpa only [ht] using hok

/-- Nothing between parentheses. -/
theorem told_empty (ht : t.kind = .openParen) (h : Closed ts) (hfirst : (peek ts).kind = .closeParen) :
    Told Unary units (t :: ts) (.error ((peek ts).error .emptySubExpression) : Except SyntaxError (Expr × List Token)) := by
  obtain ⟨rest, hts⟩ := h.first
  generalize peek ts = u at hts hfirst
  subst hts
  obtain ⟨us, hus⟩ := exists_unary
  let c : Token := ⟨.closeParen, [], none, Position.none⟩
  refine ⟨[t], u, rest, rfl, rfl, ⟨us ++ [c], hus.seq.chain.group ht rfl⟩, .inr fun i vs x hx => ?_⟩
  have hok := units_ok (show units i (t :: u :: vs) = .ok (x.1, x.2) from hx)
  simp only [ht] at hok
  exact hok.1 hfirst

/-- A token that is the first one of no `unary`. -/
theorem told_unaryError (hread : ∀ i vs x, units i (t :: vs) ≠ .ok x) :
    Told Unary units (t :: ts) (.error (unaryError t) : Except SyntaxError (Expr × List Token)) := by
  refine ⟨[], t, ts, rfl, ?_, exists_unary, ?_⟩
  · unfold unaryError
    split <;> rfl
  · have hstuck : Stuck units ([] ++ [t]) := hread
    unfold unaryError
    split <;> exact .inr hstuck

end

theorem unary_told (ih : Tells fuel) (h : Closed ts) (hfuel : 3 * ts.length + 1 ≤ fuel + 1) :
    Told Unary units ts (unary (fuel + 1) scope ts) := by
  obtain ⟨rest, hts⟩ := h.first
  generalize peek ts = t at hts
  subst hts
  rw [List.length_cons] at hfuel
  have hrest : t.kind ≠ .endOfInput → Closed rest := h.tail
  rw [unary]
  dsimp only [peek_cons]
  split
  case h_1 hk =>
    rw [advance_cons (hk ▸ by decide)]
    exact told_joined .forward hk (hrest (hk ▸ by decide))
  case h_2 hk =>
    rw [advance_cons (hk ▸ by decide)]
    exact told_joined .backward hk (hrest (hk ▸ by decide))
  case h_3 hk =>
    rw [advance_cons (hk ▸ by decide)]
    exact told_apart .forward _ hk (hrest (hk ▸ by decide))
  case h_4 hk =>
    rw [advance_cons (hk ▸ by decide)]
    exact told_apart .backward _ hk (hrest (hk ▸ by decide))
  case h_5 hk =>
    rw [advance_cons (hk ▸ by decide)]
    split
    · rename_i hclose
      exact told_empty hk (hrest (hk ▸ by decide)) hclose
    · rename_i hfirst
      exact told_group ih hk (hrest (hk ▸ by decide)) (by omega) hfirst
  case h_6 hk =>
    rw [advance_cons (hk ▸ by decide)]
    exact told_binder ih true hk (hrest (hk ▸ by decide)) (by omega)
  case h_7 hk =>
    rw [advance_cons (hk ▸ by decide)]
    exact told_binder ih false hk (hrest (hk ▸ by decide)) (by omega)
  case h_8 hk =>
    rw [advance_cons (hk ▸ by decide)]
    exact told_name hk (hrest (hk ▸ by decide))
  case h_9 =>
    refine told_unaryError fun i vs x hx => ?_
    have hok := units_ok (c := x.1) (r := x.2) hx
    split at hok
    case h_9 => exact hok
    all_goals contradiction

end

theorem tells (fuel : Nat) : Tells fuel := by
  induction fuel with
  | zero => exact tells_zero
  | succ fuel ih =>
    exact {
      expr := expr_told ih
      parTail := parTail_told ih
      seq := seq_told ih
      seqTail := seqTail_told ih
      unary := unary_told ih }

/-! ## All tokens -/

section

variable {ts us back rest : List Token} {t u : Token}

theorem noEnd_of_viable (h : Viable us) : ∀ v ∈ us, v.kind ≠ .endOfInput := by
  obtain ⟨vs, e, he⟩ := h
  exact fun v hv => he.noEnd v (List.mem_append_left _ hv)

/-- A token with no end token before it is the first end token or before it. -/
theorem split_at (hall : ts ++ t :: rest = us ++ u :: back) (ht : t.kind = .endOfInput) (hus : ∀ v ∈ us, v.kind ≠ .endOfInput) :
    (ts = us ∧ t = u) ∨ ∃ vs, ts = us ++ u :: vs := by
  rcases List.append_eq_append_iff.mp hall with ⟨as, rfl, has⟩ | ⟨bs, rfl, hbs⟩
  · cases as with
    | nil => exact .inl ⟨by rw [List.append_nil], (List.cons.inj has).1⟩
    | cons a as =>
      obtain ⟨rfl, -⟩ := List.cons.inj has
      exact absurd ht (hus t (List.mem_append_right _ List.mem_cons_self))
  · cases bs with
    | nil => exact .inl ⟨by rw [List.append_nil], ((List.cons.inj hbs).1).symm⟩
    | cons b bs =>
      obtain ⟨rfl, -⟩ := List.cons.inj hbs
      exact .inr ⟨bs, rfl⟩

/-- Formulas are read before the end token, so no formula begins with tokens that are not read so. -/
theorem not_viable (ht : t.kind = .endOfInput) (h : ∀ i vs e, exprs i (us ++ (vs ++ [t])) ≠ .ok (e, [t])) : ¬Viable us := by
  rintro ⟨vs, e, he⟩
  have hstop : (peek [t]).kind = .endOfInput := ht
  refine h (3 * (us ++ vs).length, []) vs e ?_
  rw [← List.append_assoc]
  refine parses_expr he _ (Nat.le_refl _) ?_ ?_ ?_ <;> rw [hstop] <;> decide

/-- A failure of an `expr` that starts with all tokens. -/
theorem Blamed.stopsAt {fault : SyntaxFault} (hall : ts ++ t :: rest = us ++ u :: back) (hts : ∀ v ∈ ts, v.kind ≠ .endOfInput)
    (ht : t.kind = .endOfInput) (hviable : Viable us) (hwrong : ∀ e, ¬IsExpr [] ts e)
    (hb : Blamed u back (Stuck exprs (us ++ [u])) fault) : StopsAt ts us u fault := by
  have hlate : (u.kind = .endOfInput ∨ Stuck exprs (us ++ [u])) →
      if u.kind = .endOfInput then ∀ e, ¬IsExpr [] ts e else ¬Viable (us ++ [u]) := by
    rintro hor
    split
    · exact hwrong
    · rename_i hu
      exact not_viable ht fun i vs e => (hor.resolve_left hu) i (vs ++ [t]) (e, [t])
  cases fault with
  | unbalanced =>
    obtain ⟨hu, vs, t', back', rfl, ht', hvs, hnever⟩ := hb
    refine ⟨hviable, fun hearly => absurd (.inl ⟨rfl, hu ▸ by decide⟩) hearly, fun _ _ => ⟨hu, vs, ?_, hnever⟩, fun _ heq => (by cases heq)⟩
    have hfront : ∀ v ∈ us ++ u :: vs, v.kind ≠ .endOfInput := by
      rw [List.forall_mem_append, List.forall_mem_cons]
      exact ⟨noEnd_of_viable hviable, hu ▸ by decide, hvs⟩
    have hall' : ts ++ t :: rest = (us ++ u :: vs) ++ t' :: back' := by simpa using hall
    rcases split_at hall' ht hfront with ⟨h, -⟩ | ⟨ws, h⟩
    · exact h
    · exact absurd ht' (hts t' (by rw [h]; simp))
  | unknownBinder word =>
    obtain ⟨hword, hu, v, c, back', rfl, hv, hc⟩ := hb
    refine ⟨hviable, fun hearly => absurd (.inr ⟨word, rfl⟩) hearly, fun heq => (by cases heq), ?_⟩
    rintro word' hword'
    obtain rfl := SyntaxFault.unknownBinder.inj hword'
    have hfront : ∀ w ∈ us ++ [u, v], w.kind ≠ .endOfInput := by
      rw [List.forall_mem_append, List.forall_mem_cons, List.forall_mem_singleton]
      exact ⟨noEnd_of_viable hviable, hu ▸ by decide, hv ▸ by decide⟩
    have hall' : ts ++ t :: rest = (us ++ [u, v]) ++ c :: back' := by simpa using hall
    rcases split_at hall' ht hfront with ⟨-, h⟩ | ⟨vs, h⟩
    · rw [h, hc] at ht
      cases ht
    · exact ⟨hword, hu, v, c, vs, by simpa using h, hv, hc⟩
  | tooDeep => exact hb.elim
  | _ => exact ⟨hviable, fun _ => hlate hb, fun heq => (by cases heq), fun _ heq => (by cases heq)⟩

/-- A token after a complete formula. -/
theorem stopsAt_trailing (ht : t.kind = .endOfInput) (hviable : Viable us) (hu : u.kind ≠ .endOfInput)
    (hkeeps : Keeps exprs us (u :: back)) : StopsAt ts us u (trailingError u).fault := by
  have hwrong : ¬Viable (us ++ [u]) := by
    refine not_viable ht fun i vs e he => ?_
    rw [List.append_assoc] at he
    have hlen := congrArg List.length (hkeeps i ([u] ++ (vs ++ [t])) rfl e _ he)
    simp only [List.length_append, List.length_singleton] at hlen
    omega
  refine ⟨hviable, fun _ => by rwa [if_neg hu], fun hfault hclose => ?_, fun word hfault => ?_⟩
  · rw [trailingError, if_neg hclose] at hfault
    cases hfault
  · unfold trailingError at hfault
    split at hfault <;> cases hfault

end

end ViableAux

open ViableAux

/-- Where the parser fails, it fails at a token, and the tokens before it can be extended to those of a formula. With it they cannot, and
if it is the end token, then they are those of no formula. Only two failures come earlier: at a parenthesis that is never closed, and
at a name before another one and a comma. -/
theorem parseTokens_error_stopsAt {ts rest : List Token} {t : Token} {e : SyntaxError} (hts : ∀ u ∈ ts, u.kind ≠ .endOfInput)
    (ht : t.kind = .endOfInput) (h : parseTokens (ts ++ t :: rest) = .error e) :
    ∃ us u vs, ts ++ [t] = us ++ u :: vs ∧ e = u.error e.fault ∧ StopsAt ts us u e.fault := by
  have hwrong : ∀ f, ¬IsExpr [] ts f := by
    intro f hf
    rw [hf.parseTokens ht rest] at h
    cases h
  have htoken : ∀ {us u back}, ts ++ t :: rest = us ++ u :: back → Viable us → ∃ vs, ts ++ [t] = us ++ u :: vs := by
    intro us u back hall hviable
    rcases split_at hall ht (noEnd_of_viable hviable) with ⟨rfl, rfl⟩ | ⟨vs, rfl⟩
    · exact ⟨[], rfl⟩
    · exact ⟨vs ++ [t], by rw [List.append_assoc, List.cons_append]⟩
  have hclosed : Closed (ts ++ t :: rest) := ⟨t, List.mem_append_right _ List.mem_cons_self, ht⟩
  have htold : Told Chain exprs (ts ++ t :: rest) (expr (3 * (ts ++ t :: rest).length + 3) [] (ts ++ t :: rest)) :=
    (tells _).expr hclosed (Nat.le_refl _)
  rcases bind_error h with h | ⟨⟨f, rest'⟩, hf, h⟩
  · rw [h] at htold
    obtain ⟨us, u, back, hall, he, ⟨vs, hvs⟩, hb⟩ := htold
    obtain ⟨vs', hvs'⟩ := htoken hall hvs.viable
    exact ⟨us, u, vs', hvs', he, hb.stopsAt hall hts ht hvs.viable hwrong⟩
  · rw [hf] at htold
    obtain ⟨hclosed', us, hall, hus, hkeeps⟩ := htold
    have hviable : Viable us := by
      rw [← List.append_nil us] at hus
      exact hus.viable
    obtain ⟨back, hrest⟩ := hclosed'.first
    generalize hu : peek rest' = u at hrest
    subst hrest
    change (if u.kind = _ then _ else _) = _ at h
    by_cases hend : u.kind = .endOfInput
    · rw [if_pos hend] at h
      cases h
    · rw [if_neg hend] at h
      obtain rfl := Except.error.inj h
      obtain ⟨vs, hvs⟩ := htoken hall hviable
      refine ⟨us, u, vs, hvs, ?_, stopsAt_trailing ht hviable hend hkeeps⟩
      unfold trailingError
      split <;> rfl

namespace Sample

/-- The tokens of `(a;)`, where the parenthesis is closed too early. -/
def halted : List Token :=
  [token .openParen "(", token .identifier "a", token .semicolon ";", token .closeParen ")"]

/-- The tokens of `(a;b`, where the parenthesis is not closed. -/
def unclosed : List Token :=
  [token .openParen "(", token .identifier "a", token .semicolon ";", token .identifier "b"]

end Sample

theorem parseTokens_error_stopsAt_sample :
    (∀ u ∈ Sample.halted ++ Sample.unclosed, u.kind ≠ .endOfInput) ∧
      (∃ us u vs, Sample.halted ++ [Token.eof Position.none] = us ++ u :: vs ∧ StopsAt Sample.halted us u .emptySubExpression) ∧
      ∃ us u vs, Sample.unclosed ++ [Token.eof Position.none] = us ++ u :: vs ∧ StopsAt Sample.unclosed us u .unbalanced := by
  have hnoEnd : ∀ u ∈ Sample.halted ++ Sample.unclosed, u.kind ≠ .endOfInput := by decide
  have hhalted : parseTokens (Sample.halted ++ [Token.eof Position.none]) =
      .error ((Sample.token .closeParen ")").error .emptySubExpression) := by rfl
  have hunclosed : parseTokens (Sample.unclosed ++ [Token.eof Position.none]) =
      .error ((Sample.token .openParen "(").error .unbalanced) := by rfl
  obtain ⟨us, u, vs, htoken, -, hstops⟩ :=
    parseTokens_error_stopsAt (fun u hu => hnoEnd u (List.mem_append_left _ hu)) rfl hhalted
  obtain ⟨us', u', vs', htoken', -, hstops'⟩ :=
    parseTokens_error_stopsAt (fun u hu => hnoEnd u (List.mem_append_right _ hu)) rfl hunclosed
  exact ⟨hnoEnd, ⟨us, u, vs, htoken, hstops⟩, us', u', vs', htoken', hstops'⟩

end ModalGraph.Formula
