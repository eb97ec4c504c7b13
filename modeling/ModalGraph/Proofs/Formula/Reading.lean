import ModalGraph.Proofs.Formula.Phrase

/-!
# Where a part of the parser stops

A run of the parser knows of the tokens behind it no more than the kind of the next one. So what it reads before some tokens it reads
before others that start with the same kind, or it fails there (`Keeps`), and where it stops at a token, it stops whatever follows that
token (`Stuck`). A part of the parser is told by both and by the phrases that it reads (`Told`), and so are two parts one after the
other (`Told.bind`). Here this is said of the signs and names, of diamonds and of the head of a fixpoint.
-/

namespace ModalGraph.Formula

namespace ViableAux

open GrammarAux

/-! ## Runs on tokens that start alike -/

/-- The end token is among the tokens that are left. -/
def Closed (ts : List Token) : Prop :=
  ∃ t ∈ ts, t.kind = .endOfInput

/-- Parts of the parser that differ in what they are given besides the tokens. -/
abbrev Readers (ι α : Type) : Type :=
  ι → List Token → Except SyntaxError (α × List Token)

section

variable {ι κ μ α β γ ν ξ : Type} {f : Readers ι α} {g : Readers κ β} {h : Readers μ γ}

/-- Before any tokens that start with the same kind as `rest`, readers read `us` and no more, or they fail. -/
def Keeps (f : Readers ι α) (us rest : List Token) : Prop :=
  ∀ i rest', (peek rest').kind = (peek rest).kind → ∀ a r, f i (us ++ rest') = .ok (a, r) → r = rest'

/-- Readers fail on these tokens, whatever follows. -/
def Stuck (f : Readers ι α) (us : List Token) : Prop :=
  ∀ i vs x, f i (us ++ vs) ≠ .ok x

/-- What a fault says about a token `u` and the tokens `rest` behind it: a parenthesis that is not closed before the end, a name before
another name and a comma, or a token at which readers are stuck, unless the input ends there. -/
def Blamed (u : Token) (rest : List Token) (stuck : Prop) : SyntaxFault → Prop
  | .unbalanced => u.kind = .openParen ∧
      ∃ vs t back, rest = vs ++ t :: back ∧ t.kind = .endOfInput ∧ (∀ v ∈ vs, v.kind ≠ .endOfInput) ∧ NeverCloses vs
  | .unknownBinder word => word = u.text ∧ u.kind = .identifier ∧
      ∃ v c back, rest = v :: c :: back ∧ v.kind = .identifier ∧ c.kind = .comma
  | .tooDeep => False
  | _ => u.kind = .endOfInput ∨ stuck

/-- A result of readers of some phrases: they have read a phrase that others read there as well, or they have failed at a token before
which a phrase is begun. -/
def Told (P : List Token → Prop) (f : Readers ι α) (ts : List Token) : Except SyntaxError (ν × List Token) → Prop
  | .ok (_, rest) => Closed rest ∧ ∃ us, ts = us ++ rest ∧ P us ∧ Keeps f us rest
  | .error e => ∃ us u rest, ts = us ++ u :: rest ∧ e = u.error e.fault ∧ (∃ vs, P (us ++ vs)) ∧
      Blamed u rest (Stuck f (us ++ [u])) e.fault

theorem Blamed.imp {u : Token} {rest : List Token} {p q : Prop} {fault : SyntaxFault} (hb : Blamed u rest p fault) (hpq : p → q) :
    Blamed u rest q fault := by
  cases fault with
  | unbalanced => exact hb
  | unknownBinder => exact hb
  | tooDeep => exact hb
  | _ => exact hb.imp_right hpq

/-- The kind of the next token depends on what follows it only if there is none before. -/
theorem kind_append {vs rest rest' : List Token} (hk : (peek rest').kind = (peek rest).kind) :
    (peek (vs ++ rest')).kind = (peek (vs ++ rest)).kind := by
  cases vs with
  | nil => exact hk
  | cons v vs => rfl

/-- Two readers one after the other. -/
theorem Told.bind {P Q R : List Token → Prop} {ts : List Token} {x : Except SyntaxError (ν × List Token)}
    {k : ν × List Token → Except SyntaxError (ξ × List Token)} (hx : Told P f ts x)
    (hk : ∀ a us rest, ts = us ++ rest → Closed rest → Told Q g rest (k (a, rest)))
    (hsplit : ∀ i ts' c r', h i ts' = .ok (c, r') → ∃ j a r l b, f j ts' = .ok (a, r) ∧ g l r = .ok (b, r'))
    (hQ : ∃ vs, Q vs) (hR : ∀ us vs, P us → Q vs → R (us ++ vs)) : Told R h ts (x >>= k) := by
  cases x with
  | error e =>
    obtain ⟨us, u, rest, rfl, he, ⟨vs, hvs⟩, hb⟩ := hx
    obtain ⟨ws, hws⟩ := hQ
    refine ⟨us, u, rest, rfl, he, ⟨vs ++ ws, ?_⟩, hb.imp fun hstuck i vs' c hc => ?_⟩
    · have := hR _ _ hvs hws
      rwa [List.append_assoc] at this
    · obtain ⟨j, a, r, -, -, hf, -⟩ := hsplit i _ c.1 c.2 hc
      exact hstuck j vs' _ hf
  | ok p =>
    obtain ⟨a, rest⟩ := p
    obtain ⟨hclosed, us, rfl, hus, hkeeps⟩ := hx
    have hnext := hk a us rest rfl hclosed
    show Told R h (us ++ rest) (k (a, rest))
    cases hres : k (a, rest) with
    | error e =>
      rw [hres] at hnext
      obtain ⟨us', u, rest', rfl, he, ⟨vs, hvs⟩, hb⟩ := hnext
      refine ⟨us ++ us', u, rest', by rw [List.append_assoc], he, ⟨vs, ?_⟩, hb.imp fun hstuck i vs' c hc => ?_⟩
      · rw [List.append_assoc]
        exact hR _ _ hus hvs
      · obtain ⟨j, a', r, l, b, hf, hg⟩ := hsplit i _ c.1 c.2 hc
        rw [List.append_assoc, List.append_assoc] at hf
        obtain rfl := hkeeps j (us' ++ ([u] ++ vs')) (kind_append rfl) a' r hf
        exact hstuck l vs' (b, c.2) (by rwa [List.append_assoc])
    | ok p =>
      obtain ⟨c, rest'⟩ := p
      rw [hres] at hnext
      obtain ⟨hclosed', us', rfl, hus', hkeeps'⟩ := hnext
      refine ⟨hclosed', us ++ us', by rw [List.append_assoc], hR _ _ hus hus', fun i rest'' hkind c' r' hc => ?_⟩
      obtain ⟨j, a', r, l, b, hf, hg⟩ := hsplit i _ c' r' hc
      rw [List.append_assoc] at hf
      obtain rfl := hkeeps j _ (kind_append hkind) a' r hf
      exact hkeeps' l rest'' hkind b r' hg

/-- The value that comes with the tokens that are left does not matter. -/
theorem Told.value {P : List Token → Prop} {ts : List Token} {x : Except SyntaxError (ν × List Token)}
    {k : ν × List Token → Except SyntaxError (ξ × List Token)} (hx : Told P f ts x)
    (hk : ∀ a rest, ∃ c, k (a, rest) = .ok (c, rest)) : Told P f ts (x >>= k) := by
  cases x with
  | error e => exact hx
  | ok p =>
    obtain ⟨a, rest⟩ := p
    obtain ⟨c, hc⟩ := hk a rest
    show Told P f ts (k (a, rest))
    rw [hc]
    exact hx

/-- Readers that others go through. -/
theorem Told.through {P : List Token → Prop} {ts : List Token} {x : Except SyntaxError (ν × List Token)} (hx : Told P f ts x)
    (hsplit : ∀ i ts' c r', h i ts' = .ok (c, r') → ∃ j a, f j ts' = .ok (a, r')) : Told P h ts x := by
  cases x with
  | error e =>
    obtain ⟨us, u, rest, rfl, he, hvs, hb⟩ := hx
    refine ⟨us, u, rest, rfl, he, hvs, hb.imp fun hstuck i vs' c hc => ?_⟩
    obtain ⟨j, a, hf⟩ := hsplit i _ c.1 c.2 hc
    exact hstuck j vs' _ hf
  | ok p =>
    obtain ⟨hclosed, us, rfl, hus, hkeeps⟩ := hx
    refine ⟨hclosed, us, rfl, hus, fun i rest' hkind c' r' hc' => ?_⟩
    obtain ⟨j, a', hf⟩ := hsplit i _ c' r' hc'
    exact hkeeps j rest' hkind a' r' hf

/-- Readers that read a certain token before others go on. -/
theorem Told.after {P R : List Token → Prop} {t : Token} {ts : List Token} {x : Except SyntaxError (ν × List Token)} (hx : Told P f ts x)
    (hsplit : ∀ i ts' c r', h i (t :: ts') = .ok (c, r') → ∃ j a, f j ts' = .ok (a, r')) (hR : ∀ us, P us → R (t :: us)) :
    Told R h (t :: ts) x := by
  cases x with
  | error e =>
    obtain ⟨us, u, rest, rfl, he, ⟨vs, hvs⟩, hb⟩ := hx
    refine ⟨t :: us, u, rest, rfl, he, ⟨vs, hR _ hvs⟩, hb.imp fun hstuck i vs' c hc => ?_⟩
    obtain ⟨j, a, hf⟩ := hsplit i _ c.1 c.2 hc
    exact hstuck j vs' _ hf
  | ok p =>
    obtain ⟨hclosed, us, rfl, hus, hkeeps⟩ := hx
    refine ⟨hclosed, t :: us, rfl, hR _ hus, fun i rest' hkind c' r' hc' => ?_⟩
    obtain ⟨j, a', hf⟩ := hsplit i _ c' r' hc'
    exact hkeeps j rest' hkind a' r' hf

end

/-! ## Signs and names -/

/-- Tokens of these kinds. -/
def Kinds (kinds : List TokenKind) (us : List Token) : Prop :=
  us.map (·.kind) = kinds

theorem exists_kinds (kinds : List TokenKind) : ∃ us, Kinds kinds us :=
  ⟨kinds.map (⟨·, [], none, Position.none⟩), by simp [Kinds, Function.comp_def]⟩

theorem Kinds.append {kinds kinds' : List TokenKind} {us vs : List Token} (h : Kinds kinds us) (h' : Kinds kinds' vs) :
    Kinds (kinds ++ kinds') (us ++ vs) := by
  rw [Kinds, List.map_append, h, h']

section

variable {ts : List Token}

theorem Closed.first (h : Closed ts) : ∃ rest, ts = peek ts :: rest := by
  obtain ⟨t, ht, -⟩ := h
  cases ts with
  | nil => cases ht
  | cons u ts => exact ⟨ts, rfl⟩

theorem Closed.tail {t : Token} (h : Closed (t :: ts)) (ht : t.kind ≠ .endOfInput) : Closed ts := by
  obtain ⟨u, hu, hend⟩ := h
  rcases List.mem_cons.mp hu with rfl | hu
  · exact absurd hend ht
  · exact ⟨u, hu, hend⟩

theorem told_need {kind : TokenKind} (what : String) (hkind : kind ≠ .endOfInput) (h : Closed ts) :
    Told (Kinds [kind]) (need kind) ts (need kind what ts) := by
  obtain ⟨rest, hts⟩ := h.first
  by_cases hk : (peek ts).kind = kind
  · rw [hts] at h ⊢
    rw [need_cons what rest hk hkind]
    refine ⟨h.tail (hk ▸ hkind), [peek ts], rfl, congrArg (fun k => [k]) hk, fun _ rest' _ a r hr => ?_⟩
    obtain ⟨heq, -⟩ := need_ok hr hkind
    exact (List.cons.inj heq).2.symm
  · rw [need, if_neg hk]
    refine ⟨[], peek ts, rest, hts, rfl, exists_kinds _, .inr fun _ vs x hx => ?_⟩
    obtain ⟨heq, hx⟩ := need_ok hx hkind
    exact hk ((List.cons.inj heq).1 ▸ hx)

theorem told_operatorName (what : String) (h : Closed ts) :
    Told (Kinds [.identifier]) operatorName ts (operatorName what ts) := by
  have hneed : Told (Kinds [.identifier]) (need .identifier) ts (operatorName what ts) :=
    (told_need what (by decide) h).value fun _ _ => ⟨_, rfl⟩
  refine hneed.through fun i ts' c r' hc => ?_
  obtain ⟨⟨t, r⟩, ht, hc⟩ := bind_ok hc
  cases hc
  exact ⟨i, t, ht⟩

theorem told_optionalName (h : Closed ts) :
    Told (fun us => Kinds [] us ∨ Kinds [.identifier] us) (fun (_ : Unit) ts => .ok (optionalName ts)) ts
      (.ok (optionalName ts)) := by
  obtain ⟨rest, hts⟩ := h.first
  by_cases hk : (peek ts).kind = .identifier
  · have hread : ∀ {t : Token}, t.kind = .identifier → ∀ rest, optionalName (t :: rest) = (some t.literal, rest) := by
      intro t ht rest
      rw [optionalName, if_pos (show (peek (t :: rest)).kind = _ from ht), advance_cons (ht ▸ by decide)]
      rfl
    rw [hts] at h ⊢
    rw [hread hk]
    refine ⟨h.tail (hk ▸ by decide), [peek ts], rfl, .inr (congrArg (fun k => [k]) hk), fun _ rest' _ a r hr => ?_⟩
    replace hr := (hread hk rest').symm.trans (Except.ok.inj hr)
    exact (Prod.mk.inj hr).2.symm
  · have hpass : ∀ {ts}, (peek ts).kind ≠ .identifier → optionalName ts = (none, ts) := fun hk => if_neg hk
    rw [hpass hk]
    refine ⟨h, [], rfl, .inl rfl, fun _ rest' hkind a r hr => ?_⟩
    replace hr := (hpass (hkind ▸ hk)).symm.trans (Except.ok.inj hr)
    exact (Prod.mk.inj hr).2.symm

/-- The variable of a binder, which has no argument. -/
def variableName (ts : List Token) : Except SyntaxError (Bytes × List Token) := do
  let (v, ts) ← need .identifier "bound variable" ts
  if v.arg.isSome then throw (v.error .variableWithArgument)
  return (v.text, ts)

/-- The base of a fixpoint with its variable `v` and the dot behind it. -/
def baseName (v : Bytes) (ts : List Token) : Except SyntaxError ((Bytes × Bytes) × List Token) := do
  let (base, ts) ← operatorName "fixpoint configuration name" ts
  let (_, ts) ← need .dot "'.'" ts
  return ((v, base), ts)

/-- What stands behind the variable `v` of a binder. -/
def commaBase (v : Bytes) (ts : List Token) : Except SyntaxError ((Bytes × Bytes) × List Token) := do
  let (_, ts) ← need .comma "','" ts
  baseName v ts

theorem binderHead_eq (ts : List Token) : binderHead ts = (variableName ts >>= fun p => commaBase p.1 p.2) := by
  rw [binderHead, variableName]
  cases need .identifier "bound variable" ts with
  | error e => rfl
  | ok p =>
    obtain ⟨v, ts⟩ := p
    show (if _ then _ else _) = (if v.arg.isSome = true then _ else _) >>= _
    split <;> rfl

/-- A name without argument. -/
def Plain (us : List Token) : Prop :=
  ∃ v, us = [v] ∧ v.kind = .identifier ∧ v.arg = none

theorem variableName_cons {v : Token} (hv : v.kind = .identifier) (rest : List Token) :
    variableName (v :: rest) = if v.arg.isSome then .error (v.error .variableWithArgument) else .ok (v.text, rest) := by
  rw [variableName, need_cons _ _ hv (by decide)]
  show (if v.arg.isSome = true then _ else _) = _
  split <;> rfl

theorem variableName_ok {rest : List Token} {name : Bytes} (h : variableName ts = .ok (name, rest)) :
    ∃ v, ts = v :: rest ∧ v.kind = .identifier ∧ v.arg = none := by
  obtain ⟨⟨v, rest'⟩, hv, h⟩ := bind_ok h
  dsimp only at h
  split at h
  · cases h
  · rename_i harg
    cases h
    obtain ⟨rfl, hvk⟩ := need_ok hv (by decide)
    exact ⟨v, rfl, hvk, by simpa using harg⟩

theorem told_variableName (h : Closed ts) : Told Plain (fun _ : Unit => variableName) ts (variableName ts) := by
  obtain ⟨rest, hts⟩ := h.first
  have hplain : ∃ vs, Plain vs := ⟨_, ⟨.identifier, [], none, Position.none⟩, rfl, rfl, rfl⟩
  by_cases hk : (peek ts).kind = .identifier
  · rw [hts] at h ⊢
    rw [variableName_cons hk]
    split
    · rename_i harg
      refine ⟨[], peek ts, rest, rfl, rfl, hplain, .inr fun _ vs x hx => ?_⟩
      obtain ⟨v, heq, -, hnone⟩ := variableName_ok hx
      obtain rfl := (List.cons.inj heq).1
      rw [hnone] at harg
      cases harg
    · rename_i harg
      refine ⟨h.tail (hk ▸ by decide), [peek ts], rfl, ⟨_, rfl, hk, by simpa using harg⟩, fun _ rest' _ a r hr => ?_⟩
      obtain ⟨v, heq, -⟩ := variableName_ok hr
      exact (List.cons.inj heq).2.symm
  · have hfail : variableName ts = .error ((peek ts).error (.expected "bound variable")) := by
      rw [variableName, need, if_neg hk]
      rfl
    rw [hfail]
    refine ⟨[], peek ts, rest, hts, rfl, hplain, .inr fun _ vs x hx => ?_⟩
    obtain ⟨v, heq, hv, -⟩ := variableName_ok hx
    exact hk ((List.cons.inj heq).1 ▸ hv)

theorem told_plainDiamond (p : Position) (direction : Direction) (h : Closed ts) :
    Told (Kinds [.identifier]) operatorName ts (plainDiamond p direction ts) :=
  (told_operatorName _ h).value fun _ _ => ⟨_, rfl⟩

/-- What stands behind the message name of a diamond, from its second sign on. -/
def diamondEnd (p : Position) (direction : Direction) (closing : TokenKind) (what : String) (phi : Option Bytes) (ts : List Token) :
    Except SyntaxError (Expr × List Token) := do
  let (_, ts) ← need closing what ts
  let (sigma, ts) ← operatorName "aggregation name" ts
  return (.diamond p direction phi sigma, ts)

theorem told_diamondEnd (p : Position) (direction : Direction) {closing : TokenKind} (what : String) (phi : Option Bytes)
    (hclosing : closing ≠ .endOfInput) (h : Closed ts) :
    Told (Kinds [closing, .identifier]) (fun i : String × Option Bytes => diamondEnd p direction closing i.1 i.2) ts
      (diamondEnd p direction closing what phi ts) := by
  refine (told_need what hclosing h).bind (fun _ _ rest _ hrest => (told_operatorName _ hrest).value fun _ _ => ⟨_, rfl⟩) ?_
    (exists_kinds _) fun _ _ => .append
  intro i ts' c r' hc
  obtain ⟨⟨t, r⟩, ht, hc⟩ := bind_ok hc
  obtain ⟨⟨sigma, r''⟩, hs, hc⟩ := bind_ok hc
  cases hc
  exact ⟨_, t, r, _, sigma, ht, hs⟩

/-- What stands behind the first sign of a diamond that is written with two. -/
def Labelled (closing : TokenKind) (us : List Token) : Prop :=
  Kinds [closing, .identifier] us ∨ Kinds [.identifier, closing, .identifier] us

theorem told_diamondBody (p : Position) (direction : Direction) {closing : TokenKind} (what : String) (hclosing : closing ≠ .endOfInput)
    (h : Closed ts) :
    Told (Labelled closing) (diamondBody p direction closing) ts (diamondBody p direction closing what ts) := by
  refine (told_optionalName h).bind (k := fun q => diamondEnd p direction closing what q.1 q.2)
    (fun phi _ rest _ hrest => told_diamondEnd p direction what phi hclosing hrest) ?_ (exists_kinds _) ?_
  · intro i ts' c r' hc
    exact ⟨(), _, _, (i, _), c, rfl, hc⟩
  · rintro us vs (hus | hus) hvs
    · exact .inl (hus.append hvs)
    · exact .inr (hus.append hvs)

/-- The head of a fixpoint after its binder word. -/
def Head (us : List Token) : Prop :=
  ∃ v vs, us = v :: vs ∧ v.kind = .identifier ∧ v.arg = none ∧ Kinds [.comma, .identifier, .dot] vs

theorem told_baseName (v : Bytes) (h : Closed ts) : Told (Kinds [.identifier, .dot]) baseName ts (baseName v ts) := by
  refine (told_operatorName _ h).bind (fun _ _ rest _ hrest => (told_need _ (by decide) hrest).value fun _ _ => ⟨_, rfl⟩) ?_
    (exists_kinds _) fun _ _ => .append
  intro i ts' c r' hc
  obtain ⟨⟨base, r⟩, hb, hc⟩ := bind_ok hc
  obtain ⟨⟨d, r''⟩, hd, hc⟩ := bind_ok hc
  cases hc
  exact ⟨_, base, r, _, d, hb, hd⟩

theorem told_commaBase (v : Bytes) (h : Closed ts) : Told (Kinds [.comma, .identifier, .dot]) commaBase ts (commaBase v ts) := by
  refine (told_need _ (by decide) h).bind (fun _ _ rest _ hrest => told_baseName v hrest) ?_ (exists_kinds _) fun _ _ => .append
  intro i ts' c r' hc
  obtain ⟨⟨t, r⟩, ht, hc⟩ := bind_ok hc
  exact ⟨_, t, r, i, c, ht, hc⟩

theorem told_binderHead (h : Closed ts) : Told Head (fun _ : Unit => binderHead) ts (binderHead ts) := by
  rw [binderHead_eq]
  refine (told_variableName h).bind (fun v _ rest _ hrest => told_commaBase v hrest) ?_ (exists_kinds _) ?_
  · intro i ts' c r' hc
    rw [binderHead_eq] at hc
    obtain ⟨⟨v, r⟩, hv, hc⟩ := bind_ok hc
    exact ⟨(), v, r, v, c, hv, hc⟩
  · rintro us vs ⟨v, rfl, hv, harg⟩ hvs
    exact ⟨v, vs, rfl, hv, harg, hvs⟩

end

end ViableAux

end ModalGraph.Formula
