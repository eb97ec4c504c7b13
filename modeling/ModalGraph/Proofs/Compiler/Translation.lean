import ModalGraph.Proofs.Agree
import ModalGraph.Proofs.Compiler.Built
import ModalGraph.Proofs.Compiler.Performs
import ModalGraph.Proofs.Evaluator.Refinement
import ModalGraph.Proofs.Formula.Canonical
import ModalGraph.Proofs.Formula.Translation

/-!
# Compiling formulas that are carried over

The term of a formula that is carried over is the term of the formula carried over. If a translation takes operators of a vocabulary
to operators of the same width, and bases to such as have a row to start from whenever they have one before
(`Translation.Suits`), then a formula over the vocabulary and the formula that it is carried over to have plans that agree, whatever
labels they are applied to (`plan_translate`). So a compiler gives a model for the one exactly if another compiler, whatever it has
compiled before, gives one for the other (`gives_carried`).
-/

namespace ModalGraph

open Formula Compiler

namespace Term

mutual

/-- A term carried over. -/
def translate (τ : Translation) : Term → Term
  | .input => .input
  | .psi name arg t => .psi (τ.psi name) arg (t.translate τ)
  | .concat ts => .concat (translateAll τ ts)
  | .diamond direction phi sigma t => .diamond (τ.direction direction) phi (τ.sigma sigma) (t.translate τ)
  | .var depth base => .var depth base
  | .fix least depth base t => .fix (τ.least least) depth base (t.translate τ)

/-- Several terms carried over. -/
def translateAll (τ : Translation) : List Term → List Term
  | [] => []
  | t :: ts => t.translate τ :: translateAll τ ts

end

mutual

/-- A term uses nothing else than what a vocabulary has. -/
def Over (V : Vocabulary) : Term → Prop
  | .input => True
  | .psi name arg t => V.Psi name arg ∧ t.Over V
  | .concat ts => AllOver V ts
  | .diamond _ phi sigma t => V.Phi phi ∧ V.Sigma sigma ∧ t.Over V
  | .var .. => True
  | .fix _ _ base t => V.Base base ∧ t.Over V

/-- Several terms use nothing else than what a vocabulary has. -/
def AllOver (V : Vocabulary) : List Term → Prop
  | [] => True
  | t :: ts => t.Over V ∧ AllOver V ts

end

theorem translateAll_eq_map (τ : Translation) (ts : List Term) : translateAll τ ts = ts.map (translate τ) := by
  induction ts with
  | nil => rfl
  | cons t ts ih => rw [translateAll, ih, List.map_cons]

theorem allOver_iff {V : Vocabulary} {ts : List Term} : AllOver V ts ↔ ∀ t ∈ ts, t.Over V := by
  induction ts with
  | nil => simp [AllOver]
  | cons t ts ih => rw [AllOver, ih, List.forall_mem_cons]

/-- The parts of a term use nothing else than the term. -/
theorem Over.parts {V : Vocabulary} {t : Term} (h : t.Over V) : ∀ p ∈ t.parts, p.Over V := by
  cases t with
  | input => exact fun p hp => by cases hp
  | psi => exact fun p hp => List.mem_singleton.mp hp ▸ h.2
  | concat ts => exact allOver_iff.mp h
  | diamond => exact fun p hp => List.mem_singleton.mp hp ▸ h.2.2
  | var => exact fun p hp => by cases hp
  | fix => exact fun p hp => List.mem_singleton.mp hp ▸ h.2

end Term

/-- What a vocabulary has and can be resolved, with edges where messages are passed. -/
def Vocabulary.resolved (V : Vocabulary) (ops : Registries) (settings : Settings) : Vocabulary where
  Psi name arg := V.Psi name arg ∧ ∃ op, ops.psi.get name arg = .ok op
  Phi phi := V.Phi phi ∧ settings.input.adjacency = true ∧ ∀ key ∈ phi, ∃ op, ops.phi.resolve key = .ok op
  Sigma key := V.Sigma key
  Base name := V.Base name

namespace Formula.Expr

mutual

/-- A formula in which everything can be resolved uses nothing that cannot be. -/
theorem Over.resolved {V : Vocabulary} {ops : Registries} {settings : Settings} : ∀ {e : Expr}, e.Over V → e.Accepted ops settings →
    e.Over (V.resolved ops settings)
  | .atom .., hV, h => ⟨hV, h⟩
  | .seq .., hV, h => ⟨Over.resolved hV.1 h.1, Over.resolved hV.2 h.2⟩
  | .par .., hV, h => AllOver.resolved hV h
  | .diamond .., hV, h => ⟨⟨hV.1, h.1, h.2.2⟩, hV.2⟩
  | .fix .., hV, h => ⟨hV.1, Over.resolved hV.2 h.2⟩
  | .var .., _, _ => trivial
  | .hole, _, h => h.elim

theorem AllOver.resolved {V : Vocabulary} {ops : Registries} {settings : Settings} : ∀ {es : List Expr}, AllOver V es →
    AllAccepted ops settings es → AllOver (V.resolved ops settings) es
  | [], _, _ => trivial
  | _ :: _, hV, h => ⟨Over.resolved hV.1 h.1, AllOver.resolved hV.2 h.2⟩

end

end Formula.Expr

/-- A translation takes what a vocabulary has to operators of the same width, and to binders that have a row to start from. -/
structure Translation.Suits (τ : Translation) (V : Vocabulary) (ops : Registries) (settings : Settings) : Prop
    extends τ.Spells V where
  psi : ∀ {name arg}, V.Psi name arg →
    Agree (fun op op' => op.width = op'.width) (ops.psi.get name arg) (ops.psi.get (τ.psi name) arg)
  sigma : ∀ {key}, V.Sigma key → Agree (fun op op' => op.width = op'.width) (ops.sigma.resolve key) (ops.sigma.resolve (τ.sigma key))
  base : ∀ {name base}, V.Base name → settings.base? name = some base → ∀ least,
    Agree (fun _ _ => True) (base.init least) (base.init (τ.least least))

/-- The directions of diamonds do not matter for what can be compiled. -/
theorem Translation.suits_direction (f : Direction → Direction) (V : Vocabulary) (ops : Registries) (settings : Settings) :
    Translation.Suits { direction := f } V ops settings where
  psiName _ h := h
  sigmaName _ h := h
  psi _ := (Agree.refl _).imp fun _ _ h => h ▸ rfl
  sigma _ := (Agree.refl _).imp fun _ _ h => h ▸ rfl
  base _ _ _ := (Agree.refl _).imp fun _ _ _ => trivial

section

variable {τ : Translation} {V : Vocabulary} {ops : Registries} {settings : Settings}

/-- A term goes together with the term that it is carried over to, if this has the same width. -/
def Term.Carried (τ : Translation) (V : Vocabulary) (ops : Registries) (settings : Settings) (t t' : Term) : Prop :=
  t' = t.translate τ ∧ t'.width ops settings = t.width ops settings ∧ t.Over V

namespace TranslationAux

theorem result_bind_eq {α β : Type} (x : Plan α) (f : α → Plan β) : (x >>= f).result = x.result >>= fun a => (f a).result := by
  cases hx : x.result with
  | error e => rw [Plan.bind_of_error f hx]; rfl
  | ok a => rw [Plan.bind_of_ok f hx]; rfl

/-- Plans that agree go on from results that go together. -/
theorem agree_bind {α α' β β' : Type} {R : α → β → Prop} {S : α' → β' → Prop} {x : Plan α} {y : Plan β} {f : α → Plan α'}
    {g : β → Plan β'} (h : Agree R x.result y.result) (hf : ∀ a b, R a b → Agree S (f a).result (g b).result) :
    Agree S (x >>= f).result (y >>= g).result := by
  rw [result_bind_eq, result_bind_eq]
  exact h.bind hf

/-- Visits agree if their checks do. -/
theorem agree_visit {α β : Type} {R : α → β → Prop} {S : Term → Term → Prop} {x : Except Failure α} {y : Except Failure β} {v v' : Visit}
    (h : Agree R x y) (hv : ∀ a b, x = .ok a → y = .ok b → R a b → S v.term v'.term) :
    Agree S (Plan.visit x v).result (Plan.visit y v').result := by
  cases x with
  | error f =>
    cases y with
    | error g => exact h
    | ok b => exact h.elim
  | ok a =>
    cases y with
    | error g => exact h.elim
    | ok b => exact hv a b rfl rfl h

theorem carried_boundTerm {scope : List (Bytes × Bytes)} {name : Bytes} {t : Term} (h : Expr.boundTerm scope name = some t) :
    Term.Carried τ V ops settings t t := by
  induction scope with
  | nil => cases h
  | cons p scope ih =>
    rw [Expr.boundTerm] at h
    split at h
    · obtain rfl := Option.some.inj h
      exact ⟨rfl, rfl, trivial⟩
    · exact ih h

/-- The width of a diamond whose sigma is replaced by one of the same width. -/
theorem width_diamond {direction direction' : Direction} {phi : Option Bytes} {sigma sigma' : Bytes} {op op' : Sigma} {t t' : Term}
    (hop : ops.sigma.resolve sigma = .ok op) (hop' : ops.sigma.resolve sigma' = .ok op') (hwidth : op.width = op'.width)
    (ht : t'.width ops settings = t.width ops settings) :
    Term.width ops settings (.diamond direction' phi sigma' t') = Term.width ops settings (.diamond direction phi sigma t) := by
  rw [Term.width, Term.width, hop, hop', ht]
  cases (fresh ops settings).phi? phi with
  | error f => rfl
  | ok p =>
    cases p with
    | none =>
      dsimp only
      rw [hwidth]
    | some p =>
      dsimp only
      rw [hwidth]

/-- The terms of several formulas go together one by one. -/
theorem carried_concat {ts ts' : List Term} (h : List.Forall₂ (Term.Carried τ V ops settings) ts ts') :
    Term.Carried τ V ops settings (.concat ts) (.concat ts') := by
  have hall : ts' = Term.translateAll τ ts ∧ Term.widths ops settings ts' = Term.widths ops settings ts ∧ Term.AllOver V ts := by
    induction h with
    | nil => exact ⟨rfl, rfl, trivial⟩
    | cons ht _ ih =>
      obtain ⟨rfl, hwidth, hover⟩ := ht
      obtain ⟨rfl, hwidths, hovers⟩ := ih
      exact ⟨rfl, by rw [Term.widths, Term.widths, hwidth, hwidths], hover, hovers⟩
  obtain ⟨rfl, hwidths, hovers⟩ := hall
  exact ⟨rfl, by rw [Term.width, Term.width, hwidths], hovers⟩

theorem agree_fixpointBase (hτ : τ.Suits V ops settings) {least : Bool} {name : Bytes} (hname : V.Base name) :
    Agree (fun p p' => p.1 = p'.1) ((fresh ops settings).fixpointBase least name)
      ((fresh ops settings).fixpointBase (τ.least least) name) := by
  rw [fixpointBase, fixpointBase, show (fresh ops settings).settings = settings from rfl]
  cases hbase : settings.base? name with
  | none => exact rfl
  | some base => exact (hτ.base hname hbase least).inPlace.bind fun _ _ _ => rfl

end TranslationAux

open TranslationAux

mutual

/-- The plan of a formula that is carried over, on an operand that is carried over, agrees with the plan of the formula. -/
theorem plan_translate (hτ : τ.Suits V ops settings) : ∀ (e : Expr) {scope : List (Bytes × Bytes)} {operand operand' : Term},
    e.Over V → Term.Carried τ V ops settings operand operand' →
      Agree (Term.Carried τ V ops settings) (e.plan ops settings scope operand).result
        ((e.translate τ).plan ops settings scope operand').result
  | .atom _ name arg, scope, operand, operand', hV, ⟨ho, hwidth, hover⟩ => by
    rw [Expr.translate, Expr.plan, Expr.plan]
    refine agree_visit (hτ.psi hV) fun op op' hop hop' hsame => ⟨by rw [ho, Term.translate], ?_, hV, hover⟩
    rw [Term.width, Term.width, hop, hop', hwidth]
    dsimp only
    rw [hsame]
  | .seq _ left right, scope, operand, operand', hV, ho => by
    rw [Expr.translate, Expr.plan, Expr.plan]
    exact agree_bind (plan_translate hτ left hV.1 ho) fun l l' hl => plan_translate hτ right hV.2 hl
  | .par _ children, scope, operand, operand', hV, ho => by
    rw [Expr.translate, Expr.plan, Expr.plan, Expr.isEmpty_translateAll]
    cases children.isEmpty with
    | true => exact rfl
    | false =>
      refine agree_bind (plans_translate hτ children hV ho) fun ts ts' hts => ?_
      exact agree_visit (Agree.refl _) fun _ _ _ _ _ => carried_concat hts
  | .diamond _ direction phi sigma, scope, operand, operand', hV, ⟨ho, hwidth, hover⟩ => by
    rw [Expr.translate, Expr.plan, Expr.plan]
    cases settings.input.adjacency with
    | false => exact rfl
    | true =>
      refine agree_visit (R := fun _ _ => True) ((hτ.sigma hV.2).bind fun _ _ _ => ?_) fun _ _ h h' _ => ?_
      · exact (Agree.refl _).imp fun _ _ _ => trivial
      · obtain ⟨op, hop, -⟩ := bind_ok h
        obtain ⟨op', hop', -⟩ := bind_ok h'
        have hsame := hτ.sigma hV.2
        rw [hop, hop'] at hsame
        exact ⟨by rw [ho, Term.translate], width_diamond hop hop' hsame hwidth, hV.1, hV.2, hover⟩
  | .var _ name, scope, operand, operand', hV, ho => by
    rw [Expr.translate, Expr.plan, Expr.plan]
    cases hbound : Expr.boundTerm scope name with
    | none => exact rfl
    | some t => exact carried_boundTerm hbound
  | .fix _ least v base body, scope, operand, operand', hV, ho => by
    rw [Expr.translate, Expr.plan, Expr.plan]
    refine agree_bind (agree_fixpointBase hτ hV.1) fun p p' hp => ?_
    obtain ⟨b, row⟩ := p
    obtain ⟨b', row'⟩ := p'
    obtain rfl : b = b' := hp
    refine agree_bind (plan_translate hτ body hV.2 ho) fun t t' ht => ?_
    refine agree_bind ?_ fun _ _ (_ : True) => ?_
    · rw [ht.2.1]
      exact (Agree.refl _).imp fun _ _ _ => trivial
    · exact ⟨by rw [ht.1, Term.translate], rfl, hV.1, ht.2.2⟩
  | .hole, _, _, _, _, _ => rfl

theorem plans_translate (hτ : τ.Suits V ops settings) : ∀ (es : List Expr) {scope : List (Bytes × Bytes)} {operand operand' : Term},
    Expr.AllOver V es → Term.Carried τ V ops settings operand operand' →
      Agree (List.Forall₂ (Term.Carried τ V ops settings)) (Expr.plans ops settings scope operand es).result
        (Expr.plans ops settings scope operand' (Expr.translateAll τ es)).result
  | [], _, _, _, _, _ => .nil
  | e :: es, scope, operand, operand', hV, ho => by
    rw [Expr.translateAll, Expr.plans, Expr.plans]
    refine agree_bind (plan_translate hτ e hV.1 ho) fun t t' ht => ?_
    exact agree_bind (plans_translate hτ es hV.2 ho) fun ts ts' hts => .cons ht hts

end

mutual

/-- The places of the parts of a formula do not matter for its plan. -/
theorem plan_unplaced : ∀ (e : Expr) (scope : List (Bytes × Bytes)) (operand : Term),
    Agree Eq (e.unplaced.plan ops settings scope operand).result (e.plan ops settings scope operand).result
  | .atom .., _, _ => Agree.refl _
  | .seq _ left right, scope, operand => by
    rw [Expr.unplaced, Expr.plan, Expr.plan]
    refine agree_bind (plan_unplaced left scope operand) fun l l' hl => ?_
    exact hl ▸ plan_unplaced right scope l
  | .par _ children, scope, operand => by
    have hempty : (Expr.unplacedAll children).isEmpty = children.isEmpty := by cases children <;> rfl
    rw [Expr.unplaced, Expr.plan, Expr.plan, hempty]
    cases children.isEmpty with
    | true => exact rfl
    | false =>
      refine agree_bind (plans_unplaced children scope operand) fun ts ts' hts => ?_
      exact hts ▸ Agree.refl _
  | .diamond .., _, _ => Agree.refl _
  | .var _ name, scope, operand => by
    rw [Expr.unplaced, Expr.plan, Expr.plan]
    cases Expr.boundTerm scope name with
    | none => exact rfl
    | some t => exact rfl
  | .fix _ least v base body, scope, operand => by
    rw [Expr.unplaced, Expr.plan, Expr.plan]
    refine agree_bind (Agree.refl _) fun p p' hp => ?_
    obtain rfl := hp
    refine agree_bind (plan_unplaced body _ operand) fun t t' ht => ?_
    exact ht ▸ Agree.refl _
  | .hole, _, _ => rfl

theorem plans_unplaced : ∀ (es : List Expr) (scope : List (Bytes × Bytes)) (operand : Term),
    Agree Eq (Expr.plans ops settings scope operand (Expr.unplacedAll es)).result (Expr.plans ops settings scope operand es).result
  | [], _, _ => rfl
  | e :: es, scope, operand => by
    rw [Expr.unplacedAll, Expr.plans, Expr.plans]
    refine agree_bind (plan_unplaced e scope operand) fun t t' ht => ?_
    obtain rfl := ht
    refine agree_bind (plans_unplaced es scope operand) fun ts ts' hts => ?_
    exact hts ▸ Agree.refl _

end

/-- Formulas that differ in the places of their parts alone have plans that agree. -/
theorem plan_eq_of_unplaced {e e' : Expr} (h : e.unplaced = e'.unplaced) :
    Agree Eq (e.plan ops settings [] .input).result (e'.plan ops settings [] .input).result := by
  rw [Agree.eq_iff, ← Agree.eq_iff.mp (plan_unplaced e [] .input), h, Agree.eq_iff.mp (plan_unplaced e' [] .input)]

/-- The plan of a formula that is carried over agrees with the plan of the formula, on the input. -/
theorem plan_carried (hτ : τ.Suits V ops settings) {e : Expr} (hV : e.Over V) :
    Agree (Term.Carried τ V ops settings) (e.plan ops settings [] .input).result ((e.translate τ).plan ops settings [] .input).result :=
  plan_translate hτ e hV (show Term.Carried τ V ops settings .input .input from ⟨rfl, rfl, trivial⟩)

end

/-! ## Models -/

/-- The models that a compiler returns for a formula, handed over as it is or as a text that is parsed as it, up to places. -/
inductive Compiler.Gives (c : Compiler) (e : Expr) (m : Model) : Prop where
  | text {canceled : Bool} {src : Bytes} {e' : Expr} : parse src = .ok e' → e'.unplaced = e.unplaced →
      (c.compile canceled src).result = .ok m → Gives c e m
  | tree {canceled : Bool} : (c.compileExpr canceled e).result = .ok m → Gives c e m

section

variable {ops : Registries} {settings : Settings} {c : Compiler} {e : Expr} {m : Model}

theorem Compiler.Returns.gives (h : c.Returns e m) : c.Gives e m := by
  cases h with
  | text hparse hm => exact .text hparse rfl hm
  | expr _ hm => exact .tree hm

/-- A model that is given is made from the formula, up to places. -/
theorem Compiler.Gives.compileAs (he : e.Named) (hm : c.Gives e m) :
    ∃ e', e'.Named ∧ e'.unplaced = e.unplaced ∧ ∃ canceled formula, (c.compileAs canceled formula e').result = .ok m := by
  cases hm with
  | @text canceled src e' hparse hplaces hm =>
    refine ⟨e', (parse_wellFormed hparse).named, hplaces, canceled, src, ?_⟩
    rwa [Compiler.compile, hparse] at hm
  | @tree canceled hm =>
    refine ⟨e, he, rfl, canceled, e.key, ?_⟩
    rwa [Compiler.compileExpr, if_neg (by simp [he.hasHole])] at hm

/-- What a model is made from is planned to succeed, with the same term as the formula. -/
theorem Compiler.Gives.planned (hc : Reachable ops settings c) (he : e.Named) (hm : c.Gives e m) :
    ∃ e' t, e'.Named ∧ (∃ canceled formula, (c.compileAs canceled formula e').result = .ok m) ∧
      (e'.plan ops settings [] .input).result = .ok t ∧ (e.plan ops settings [] .input).result = .ok t := by
  obtain ⟨es, hlist⟩ := hc.listed
  obtain ⟨e', he', hplaces, canceled, formula, hm⟩ := hm.compileAs he
  obtain ⟨es', -, -, hmatch⟩ := hlist.compileAs he' canceled formula
  rw [hm] at hmatch
  obtain ⟨t, ht, -⟩ := hmatch.of_ok
  cases canceled with
  | true => cases ht
  | false =>
    have hplan : ModalGraph.Agree Eq (e'.plan ops settings [] .input).result _ := plan_eq_of_unplaced hplaces
    rw [show (e'.plan ops settings [] .input).result = .ok t from ht] at hplan
    obtain ⟨t', ht', rfl⟩ := hplan.of_ok
    exact ⟨e', t, he', ⟨false, formula, hm⟩, ht, ht'⟩

/-- Everything in a formula that has a model can be resolved. -/
theorem Compiler.Gives.accepted (hc : Reachable ops settings c) (he : e.Named) (hm : c.Gives e m) : e.Accepted ops settings := by
  obtain ⟨-, t, -, -, -, ht⟩ := hm.planned hc he
  exact (plan_ok e ht).2

/-- A formula has a model if it is not planned to fail, and not otherwise. -/
theorem gives_iff_planned (hc : Reachable ops settings c) (he : e.Named) :
    (∃ m, c.Gives e m) ↔ ∃ t, (e.plan ops settings [] .input).result = .ok t := by
  constructor
  · rintro ⟨m, hm⟩
    obtain ⟨-, t, -, -, -, ht⟩ := hm.planned hc he
    exact ⟨t, ht⟩
  · rintro ⟨t, ht⟩
    obtain ⟨es, hlist⟩ := hc.listed
    obtain ⟨es', -, -, hmatch⟩ := hlist.compileAs he false e.key
    rw [show (e.callPlan ops settings false).result = .ok t from ht] at hmatch
    obtain ⟨m, hm, -⟩ := hmatch.symm.of_ok
    refine ⟨m, .tree (?_ : (c.compileExpr false e).result = .ok m)⟩
    rwa [Compiler.compileExpr, if_neg (by simp [he.hasHole])]

end

section

variable {τ : Translation} {V : Vocabulary} {ops : Registries} {settings : Settings} {c c' : Compiler} {e : Expr}

/-- Of a formula and what it is carried over to, one has a model if the other one has. -/
theorem gives_carried (hτ : τ.Suits V ops settings) (hc : Reachable ops settings c) (hc' : Reachable ops settings c')
    (he : e.Named) (hV : e.Over V) : (∃ m, c.Gives e m) ↔ ∃ m', c'.Gives (e.translate τ) m' := by
  rw [gives_iff_planned hc he, gives_iff_planned hc' (he.translate hτ.toSpells hV)]
  exact (plan_carried hτ hV).ok_iff

/-- The term of a formula that has a model is carried over to the term of what the formula is carried over to. -/
theorem term_carried (hτ : τ.Suits V ops settings) (hc : Reachable ops settings c) (he : e.Named) {m : Model} (hm : c.Gives e m)
    (hV : e.Over V) : ∃ t, e.term [] .input = some t ∧ (e.translate τ).term [] .input = some (t.translate τ) ∧ t.Over V := by
  obtain ⟨t, ht⟩ := (gives_iff_planned hc he).mp ⟨m, hm⟩
  have hplan := plan_carried hτ hV
  rw [ht] at hplan
  obtain ⟨t', ht', rfl, -, hover⟩ := hplan.of_ok
  exact ⟨t, (plan_ok e ht).1, (plan_ok _ ht').1, hover⟩

end

end ModalGraph
