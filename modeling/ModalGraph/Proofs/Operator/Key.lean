import ModalGraph.Operator.Registry
import ModalGraph.Proofs.Formula.Grammar
import ModalGraph.Proofs.Formula.Name

/-!
# Keys of operators

A name of formula text is taken apart twice. The lexer splits it into a name and an argument, and an atom asks its registry for the
two. A diamond keeps its names in source form, and the registry takes them apart again at their brackets. Both ways come to the same
(`Token.ReadsBack`), since no name has a bracket in it and no argument a closing one: so it is for every token that the lexer gives,
and a parsed formula has no other names than those of its tokens (`Expr.DrawnFrom`).
-/

namespace ModalGraph

namespace KeyAux

open Formula

theorem cut_append {sep : UInt8} {a : Bytes} (h : sep ∉ a) (b : Bytes) : Bytes.cut sep (a ++ sep :: b) = (a, some b) := by
  induction a with
  | nil => rw [List.nil_append, Bytes.cut, if_pos (beq_self_eq_true sep)]
  | cons c a ih =>
    rw [List.mem_cons, not_or] at h
    rw [List.cons_append, Bytes.cut, if_neg (by simpa using fun hc => h.1 hc.symm), ih h.2]

theorem cut_of_not_mem {sep : UInt8} {a : Bytes} (h : sep ∉ a) : Bytes.cut sep a = (a, none) := by
  induction a with
  | nil => rfl
  | cons c a ih =>
    rw [List.mem_cons, not_or] at h
    rw [Bytes.cut, if_neg (by simpa using fun hc => h.1 hc.symm), ih h.2]

theorem parseKey_fst {name : Bytes} (h : Bytes.ascii '[' ∉ name) (arg : Argument) : (parseKey (bracketed name arg)).1 = name := by
  cases arg with
  | none => rw [bracketed, parseKey, cut_of_not_mem h]
  | some a => rw [bracketed, parseKey, cut_append h]

theorem parseKey_bracketed {name : Bytes} {arg : Argument} (h : CleanName name arg) : parseKey (bracketed name arg) = (name, arg) := by
  have hname : Bytes.ascii '[' ∉ name := fun hmem => absurd (h.identBytes _ hmem) (by decide)
  cases arg with
  | none => rw [bracketed, parseKey, cut_of_not_mem hname]
  | some a =>
    have harg : Bytes.ascii ']' ∉ a := fun hmem => absurd (h.argBytes a rfl _ hmem) (by decide)
    rw [bracketed, parseKey, cut_append hname]
    dsimp only
    rw [cut_append harg]

end KeyAux

namespace Formula

open GrammarAux KeyAux NameAux

/-- The source form of a token is taken apart into its name and its argument, so that every registry finds under it what an atom of
that token asks for. -/
structure Token.ReadsBack (t : Token) : Prop where
  parts : parseKey t.literal = (t.text, t.arg)
  found : ∀ {α : Type} (r : Registry α), r.resolve t.literal = r.get t.text t.arg

/-- A key is the source form of a name among some tokens. -/
def SpelledIn (ts : List Token) (key : Bytes) : Prop :=
  ∃ t ∈ ts, t.kind = .identifier ∧ key = t.literal

mutual

/-- The names of a formula are those of some tokens: an atom has the name and the argument of one, a diamond and a fixpoint have source
forms, and a variable has the name of one without argument. -/
def Expr.DrawnFrom (ts : List Token) : Expr → Prop
  | .atom p name arg => ∃ t ∈ ts, t.kind = .identifier ∧ p = t.pos ∧ name = t.text ∧ arg = t.arg
  | .seq _ left right => left.DrawnFrom ts ∧ right.DrawnFrom ts
  | .par _ children => Expr.AllDrawnFrom ts children
  | .diamond _ _ phi sigma => (∀ key ∈ phi, SpelledIn ts key) ∧ SpelledIn ts sigma
  | .fix _ _ v base body => (SpelledIn ts v ∧ SpelledIn ts base) ∧ body.DrawnFrom ts
  | .var _ name => SpelledIn ts name
  | .hole => False

/-- The names of several formulas are those of some tokens. -/
def Expr.AllDrawnFrom (ts : List Token) : List Expr → Prop
  | [] => True
  | e :: es => e.DrawnFrom ts ∧ Expr.AllDrawnFrom ts es

end

namespace DrawnAux

/-- A name that the lexer can give is read back. -/
theorem readsBack_of_clean {t : Token} (h : CleanName t.text t.arg) : t.ReadsBack where
  parts := parseKey_bracketed h
  found r := by
    show r.get (parseKey (bracketed t.text t.arg)).1 (parseKey (bracketed t.text t.arg)).2 = r.get t.text t.arg
    rw [parseKey_bracketed h]

/-- The source form of a name without argument is the name. -/
theorem spelledIn_text {ts : List Token} {t : Token} (ht : t ∈ ts) (hk : t.kind = .identifier) (harg : t.arg = none) :
    SpelledIn ts t.text :=
  ⟨t, ht, hk, by rw [Token.literal, harg, bracketed]⟩

/-- The names of a diamond are names among its tokens. -/
theorem spelledIn_diamond {direction : Direction} {us ts : List Token} {phi : Option Bytes} {sigma : Bytes}
    (h : IsDiamond direction us phi sigma) (hall : us ⊆ ts) : (∀ key ∈ phi, SpelledIn ts key) ∧ SpelledIn ts sigma := by
  cases h with
  | joined _ hs => exact ⟨by simp, _, hall (by simp), hs, rfl⟩
  | apart _ _ hs => exact ⟨by simp, _, hall (by simp), hs, rfl⟩
  | labelled _ hp _ hs =>
    refine ⟨fun key hkey => ?_, _, hall (by simp), hs, rfl⟩
    obtain rfl := Option.some.inj hkey
    exact ⟨_, hall (by simp), hp, rfl⟩

section

variable {ts : List Token}

mutual

/-- A derivable `unary` has the names of its tokens. -/
theorem drawnFrom_unary {scope : List Bytes} : ∀ {us : List Token} {e : Expr}, IsUnary scope us e → us ⊆ ts → e.DrawnFrom ts
  | _, _, .diamond h, hall => spelledIn_diamond h hall
  | _, _, .binder _ hv harg _ hb _ hbody, hall =>
    ⟨⟨spelledIn_text (hall (by simp)) hv harg, _, hall (by simp), hb, rfl⟩,
      drawnFrom_unary hbody fun _ ht => hall (by simp [ht])⟩
  | _, _, .group _ h _, hall => drawnFrom_expr h fun _ ht => hall (by simp [ht])
  | _, _, .var h harg _, hall => spelledIn_text (hall (by simp)) h harg
  | _, _, .atom h _, hall => ⟨_, hall (by simp), h, rfl, rfl, rfl⟩

theorem drawnFrom_seq {scope : List Bytes} : ∀ {us : List Token} {e : Expr}, IsSeq scope us e → us ⊆ ts → e.DrawnFrom ts
  | _, _, .single h, hall => drawnFrom_unary h hall
  | _, _, .more h _ hright, hall =>
    ⟨drawnFrom_seq h fun _ ht => hall (by simp [ht]), drawnFrom_unary hright fun _ ht => hall (by simp [ht])⟩

theorem drawnFrom_chain {scope : List Bytes} : ∀ {us : List Token} {es : List Expr}, IsChain scope us es → us ⊆ ts →
    Expr.AllDrawnFrom ts es
  | _, _, .last h, hall => ⟨drawnFrom_seq h hall, trivial⟩
  | _, _, .more h _ hrest, hall =>
    ⟨drawnFrom_seq h fun _ ht => hall (by simp [ht]), drawnFrom_chain hrest fun _ ht => hall (by simp [ht])⟩

theorem drawnFrom_expr {scope : List Bytes} : ∀ {us : List Token} {e : Expr}, IsExpr scope us e → us ⊆ ts → e.DrawnFrom ts
  | _, _, .single h, hall => drawnFrom_seq h hall
  | _, _, .parallel h _, hall => drawnFrom_chain h hall

end

end

/-- A parsed formula has the names of its tokens. -/
theorem drawnFrom_of_parseTokens {ts : List Token} {e : Expr} (h : parseTokens ts = .ok e) : e.DrawnFrom ts := by
  obtain ⟨⟨e', rest⟩, he, h⟩ := bind_ok h
  dsimp only at h
  split at h
  · cases h
    obtain ⟨us, rfl, hexpr⟩ := (sound _).expr he
    exact drawnFrom_expr hexpr (List.subset_append_left us rest)
  · cases h

end DrawnAux

open DrawnAux

/-- Diamonds look their names up as atoms do. Whatever name the lexer reads, also in a text that it refuses further on, its source form
is taken apart into that name and its argument; in a text that is read to the end this holds of all its tokens, and the names of its
formula are among them. -/
theorem readsBack_of_tokens :
    (∀ b rest l p, lexeme b rest = .ok l → l.kind = .identifier → (l.at p).ReadsBack) ∧
      ∀ src ts, tokens src = .ok ts →
        (∀ t ∈ ts, t.kind = .identifier → t.ReadsBack) ∧ ∀ e, parse src = .ok e → e.DrawnFrom ts := by
  refine ⟨fun b rest l p h hk => readsBack_of_clean (lexeme_clean h hk), fun src ts hts => ⟨?_, fun e he => ?_⟩⟩
  · exact fun t ht hk => readsBack_of_clean (tokens_clean hts t ht hk)
  · obtain ⟨ts', hts', he⟩ := bind_ok he
    obtain rfl := Except.ok.inj (hts.symm.trans hts')
    exact drawnFrom_of_parseTokens he

namespace Sample

/-- An atom with an empty argument, and a diamond whose names have a parenthesis and a sign in their arguments. -/
def argued : Bytes :=
  Bytes.ofString "bit[];|msg[a(b]>or[x>]"

/-- The names of some tokens with their arguments. -/
def names (ts : List Token) : List (Bytes × Option Bytes) :=
  (ts.filter (·.kind = .identifier)).map fun t => (t.text, t.arg)

end Sample

/-- The names of `bit[];|msg[a(b]>or[x>]` are read back: the diamond asks for `msg` with `a(b` and for `or` with `x>`. -/
theorem readsBack_of_tokens_sample :
    ∃ ts e, tokens Sample.argued = .ok ts ∧ parse Sample.argued = .ok e ∧ e.DrawnFrom ts ∧
      (∀ t ∈ ts, t.kind = .identifier → t.ReadsBack) ∧
      Sample.names ts = [(Bytes.ofString "bit", some []), (Bytes.ofString "msg", some (Bytes.ofString "a(b")),
        (Bytes.ofString "or", some (Bytes.ofString "x>"))] := by
  have hnames : Sample.names <$> tokens Sample.argued = .ok [(Bytes.ofString "bit", some []),
      (Bytes.ofString "msg", some (Bytes.ofString "a(b")), (Bytes.ofString "or", some (Bytes.ofString "x>"))] := by decide +kernel
  have hparse : (parse Sample.argued).isOk = true := by decide +kernel
  cases hts : tokens Sample.argued with
  | error f => rw [hts] at hnames; cases hnames
  | ok ts =>
    cases he : parse Sample.argued with
    | error f => rw [he] at hparse; cases hparse
    | ok e =>
      rw [hts] at hnames
      obtain ⟨hread, hdrawn⟩ := readsBack_of_tokens.2 _ ts hts
      exact ⟨ts, e, rfl, rfl, hdrawn e he, hread, Except.ok.inj hnames⟩

end Formula

end ModalGraph
