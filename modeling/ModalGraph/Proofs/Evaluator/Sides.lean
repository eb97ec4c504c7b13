import ModalGraph.Proofs.Evaluator.Correspondence
import ModalGraph.Proofs.Tensor.Grouping

/-!
# Formulas side by side

However parallel compositions are nested in each other, what counts are the formulas that stand side by side in the end (`Expr.sides`):
`e||(f||g)`, `(e||f)||g` and `e||f||g` have the same ones (`Expr.sides_nested`). A formula compiles if its sides do (`plan_sides`), and
it gives the labels of its sides put side by side in one go, because tensors can be put side by side in any groups (`meaning_sides`).
-/

namespace ModalGraph

open Formula Compiler TranslationAux

namespace Formula.Expr

mutual

/-- The formulas that a formula puts side by side, from all parallel compositions that are directly nested in each other. -/
def sides : Expr → List Expr
  | .par _ children => allSides children
  | .atom pos name arg => [.atom pos name arg]
  | .seq pos left right => [.seq pos left right]
  | .diamond pos direction phi sigma => [.diamond pos direction phi sigma]
  | .fix pos least v base body => [.fix pos least v base body]
  | .var pos name => [.var pos name]
  | .hole => [.hole]

/-- The formulas that several formulas put side by side, one after the other. -/
def allSides : List Expr → List Expr
  | [] => []
  | e :: es => e.sides ++ allSides es

end

/-- The three ways to group three formulas. -/
theorem sides_nested (p q p' q' p'' : Position) (e f g : Expr) :
    (par p [e, par q [f, g]]).unplaced.sides = (par p'' [e, f, g]).unplaced.sides ∧
      (par p' [par q' [e, f], g]).unplaced.sides = (par p'' [e, f, g]).unplaced.sides := by
  simp only [unplaced, unplacedAll, sides, allSides, List.append_nil, List.append_assoc, and_self]

/-- A formula is a parallel composition, or it stands by itself. -/
theorem par_or_sides (e : Expr) : (∃ p children, e = .par p children) ∨ e.sides = [e] := by
  cases e with
  | par p children => exact .inl ⟨p, children, rfl⟩
  | _ => exact .inr rfl

mutual

theorem Named.unplaced : ∀ {e : Expr}, e.Named → e.unplaced.Named
  | .atom .., h => h
  | .seq .., h => ⟨Named.unplaced h.1, Named.unplaced h.2⟩
  | .par .., h => ⟨(length_unplacedAll _).symm ▸ h.1, AllNamed.unplaced h.2⟩
  | .diamond .., h => h
  | .fix .., h => ⟨h.1, h.2.1, Named.unplaced h.2.2⟩
  | .var .., h => h
  | .hole, h => h

theorem AllNamed.unplaced : ∀ {es : List Expr}, AllNamed es → AllNamed (unplacedAll es)
  | [], h => h
  | _ :: _, h => ⟨Named.unplaced h.1, AllNamed.unplaced h.2⟩

end

mutual

/-- A formula has one side at least. -/
theorem Named.sides_ne_nil : ∀ {e : Expr}, e.Named → e.sides ≠ []
  | .par .., h => fun hnil => by
    have hlength := AllNamed.length_le h.2
    rw [show allSides _ = [] from hnil] at hlength
    exact absurd (h.1.trans hlength) (by decide)
  | .atom .., _ => List.cons_ne_nil _ _
  | .seq .., _ => List.cons_ne_nil _ _
  | .diamond .., _ => List.cons_ne_nil _ _
  | .fix .., _ => List.cons_ne_nil _ _
  | .var .., _ => List.cons_ne_nil _ _
  | .hole, h => h.elim

theorem AllNamed.length_le : ∀ {es : List Expr}, AllNamed es → es.length ≤ (allSides es).length
  | [], _ => Nat.le_refl 0
  | e :: es, h => by
    have hfirst := List.length_pos_iff.mpr (Named.sides_ne_nil h.1)
    have hrest := AllNamed.length_le h.2
    rw [allSides, List.length_append, List.length_cons]
    omega

end

theorem Named.children_ne_nil {p : Position} {children : List Expr} (h : (par p children).Named) : children ≠ [] := by
  rintro rfl
  exact absurd h.1 (by decide)

/-- Two formulas at least stand side by side in a parallel composition. -/
theorem Named.two_le_sides {p : Position} {children : List Expr} (h : (par p children).Named) : 2 ≤ (par p children).sides.length :=
  h.1.trans (AllNamed.length_le h.2)

end Formula.Expr

section

variable {ops : Registries} {settings : Settings}

/-! ## Compiling -/

mutual

/-- A formula is planned to succeed exactly if each of its sides is. -/
theorem plan_sides : ∀ {e : Expr} (scope : List (Bytes × Bytes)) (operand : Term), e.Named →
    ((∃ t, (e.plan ops settings scope operand).result = .ok t) ↔
      ∀ d ∈ e.sides, ∃ t, (d.plan ops settings scope operand).result = .ok t)
  | .par _ children, scope, operand, h => by
    rw [Expr.plan, if_neg (mt List.isEmpty_iff.mp h.children_ne_nil), Expr.sides, ← plans_sides scope operand h.2, result_bind_eq]
    constructor
    · rintro ⟨t, ht⟩
      obtain ⟨ts, hts, -⟩ := bind_ok ht
      exact ⟨ts, hts⟩
    · rintro ⟨ts, hts⟩
      exact ⟨.concat ts, by rw [hts]; rfl⟩
  | .atom .., _, _, _ => by rw [Expr.sides, List.forall_mem_singleton]
  | .seq .., _, _, _ => by rw [Expr.sides, List.forall_mem_singleton]
  | .diamond .., _, _, _ => by rw [Expr.sides, List.forall_mem_singleton]
  | .fix .., _, _, _ => by rw [Expr.sides, List.forall_mem_singleton]
  | .var .., _, _, _ => by rw [Expr.sides, List.forall_mem_singleton]
  | .hole, _, _, h => h.elim

theorem plans_sides : ∀ {es : List Expr} (scope : List (Bytes × Bytes)) (operand : Term), Expr.AllNamed es →
    ((∃ ts, (Expr.plans ops settings scope operand es).result = .ok ts) ↔
      ∀ d ∈ Expr.allSides es, ∃ t, (d.plan ops settings scope operand).result = .ok t)
  | [], _, _, _ => iff_of_true ⟨[], rfl⟩ (List.forall_mem_nil _)
  | e :: es, scope, operand, h => by
    rw [Expr.plans, Expr.allSides, List.forall_mem_append, ← plan_sides scope operand h.1, ← plans_sides scope operand h.2,
      result_bind_eq]
    constructor
    · rintro ⟨_, hus⟩
      obtain ⟨t, ht, hus⟩ := bind_ok hus
      rw [result_bind_eq] at hus
      obtain ⟨ts, hts, -⟩ := bind_ok hus
      exact ⟨⟨t, ht⟩, ts, hts⟩
    · rintro ⟨⟨t, ht⟩, ts, hts⟩
      exact ⟨t :: ts, by rw [ht, ok_bind, result_bind_eq, hts]; rfl⟩

end

end

/-! ## Meaning -/

section

variable {s : Scene} {ρ : Assignment} {operand : Except Failure Tensor} {y : Tensor}

namespace SidesAux

/-- The labels of two runs of formulas. -/
theorem exists_meanings_append {es es' : List Expr} {p : List Tensor → Prop} :
    (∃ xs, meanings s ρ operand (es ++ es') = .ok xs ∧ p xs) ↔
      ∃ xs, meanings s ρ operand es = .ok xs ∧ ∃ ys, meanings s ρ operand es' = .ok ys ∧ p (xs ++ ys) := by
  induction es generalizing p with
  | nil => simp only [List.nil_append, meanings, Except.ok.injEq, exists_eq_left']
  | cons e es ih =>
    simp only [List.cons_append, meanings, exists_bind_ok, exists_pure_ok, ih]

theorem exists_meanings_singleton {e : Expr} {p : List Tensor → Prop} :
    (∃ xs, meanings s ρ operand [e] = .ok xs ∧ p xs) ↔ ∃ x, meaning s ρ operand e = .ok x ∧ p [x] := by
  simp only [meanings, exists_bind_ok, exists_pure_ok, Except.ok.injEq, exists_eq_left']

theorem meanings_ne_nil {es : List Expr} {xs : List Tensor} (h : meanings s ρ operand es = .ok xs) (hne : es ≠ []) : xs ≠ [] := by
  cases es with
  | nil => exact absurd rfl hne
  | cons e es =>
    rw [meanings] at h
    obtain ⟨x, -, h⟩ := bind_ok h
    obtain ⟨xs, -, h⟩ := bind_ok h
    obtain rfl := Except.ok.inj h
    exact List.cons_ne_nil x xs

/-- A formula that stands by itself is its only side. -/
theorem beside_alone {e : Expr} (he : e.sides = [e]) (before after : List Tensor) :
    (∃ x, meaning s ρ operand e = .ok x ∧ Tensor.concat (before ++ x :: after) = .ok y) ↔
      ∃ xs, meanings s ρ operand e.sides = .ok xs ∧ Tensor.concat (before ++ xs ++ after) = .ok y := by
  rw [he, exists_meanings_singleton]
  simp only [List.append_assoc, List.singleton_append]

end SidesAux

open SidesAux

mutual

/-- Among other labels, a formula gives what its sides give. -/
theorem beside_sides (hrows : 0 ≤ y.rows) (hroom : y.data.size ≤ Tensor.capacity) : ∀ {e : Expr} (before after : List Tensor),
    e.Named → ((∃ x, meaning s ρ operand e = .ok x ∧ Tensor.concat (before ++ x :: after) = .ok y) ↔
      ∃ xs, meanings s ρ operand e.sides = .ok xs ∧ Tensor.concat (before ++ xs ++ after) = .ok y)
  | .par _ children, before, after, h => by
    rw [Expr.sides, ← besides_sides hrows hroom before after h.2, meaning, exists_bind_ok]
    refine exists_congr fun xs => and_congr_right fun hxs => ?_
    exact Tensor.concat_splice (meanings_ne_nil hxs h.children_ne_nil) hroom fun hneg => absurd hrows (Int.not_le.mpr hneg)
  | .atom .., before, after, _ => beside_alone rfl before after
  | .seq .., before, after, _ => beside_alone rfl before after
  | .diamond .., before, after, _ => beside_alone rfl before after
  | .fix .., before, after, _ => beside_alone rfl before after
  | .var .., before, after, _ => beside_alone rfl before after
  | .hole, _, _, h => h.elim

/-- Among other labels, several formulas give what their sides give. -/
theorem besides_sides (hrows : 0 ≤ y.rows) (hroom : y.data.size ≤ Tensor.capacity) : ∀ {es : List Expr} (before after : List Tensor),
    Expr.AllNamed es → ((∃ xs, meanings s ρ operand es = .ok xs ∧ Tensor.concat (before ++ xs ++ after) = .ok y) ↔
      ∃ xs, meanings s ρ operand (Expr.allSides es) = .ok xs ∧ Tensor.concat (before ++ xs ++ after) = .ok y)
  | [], _, _, _ => Iff.rfl
  | e :: es, before, after, h => by
    -- First the other formulas are replaced by their sides, behind the labels of the first one, then the first one is.
    have hrest : ∀ x, (∃ xs, meanings s ρ operand es = .ok xs ∧ Tensor.concat (before ++ (x :: xs) ++ after) = .ok y) ↔
        ∃ xs, meanings s ρ operand (Expr.allSides es) = .ok xs ∧ Tensor.concat (before ++ x :: (xs ++ after)) = .ok y := by
      intro x
      have hx := besides_sides hrows hroom (before ++ [x]) after h.2
      simpa only [List.append_assoc, List.cons_append, List.nil_append] using hx
    have hfirst : ∀ xs, (∃ x, meaning s ρ operand e = .ok x ∧ Tensor.concat (before ++ x :: (xs ++ after)) = .ok y) ↔
        ∃ us, meanings s ρ operand e.sides = .ok us ∧ Tensor.concat (before ++ (us ++ xs) ++ after) = .ok y := by
      intro xs
      have hxs := beside_sides hrows hroom before (xs ++ after) h.1
      simpa only [List.append_assoc] using hxs
    rw [Expr.allSides, exists_meanings_append, meanings]
    simp only [exists_bind_ok, exists_pure_ok, hrest]
    constructor
    · rintro ⟨x, hx, xs, hxs, hy⟩
      obtain ⟨us, hus, hy⟩ := (hfirst xs).mp ⟨x, hx, hy⟩
      exact ⟨us, hus, xs, hxs, hy⟩
    · rintro ⟨us, hus, xs, hxs, hy⟩
      obtain ⟨x, hx, hy⟩ := (hfirst xs).mpr ⟨us, hus, hy⟩
      exact ⟨x, hx, xs, hxs, hy⟩

end

/-- Formulas that put the same formulas side by side give the same labels. -/
theorem meaning_sides (hrows : 0 ≤ y.rows) (hroom : y.data.size ≤ Tensor.capacity) {e e' : Expr} (he : e.Named) (he' : e'.Named)
    (h : e.sides = e'.sides) : meaning s ρ operand e = .ok y ↔ meaning s ρ operand e' = .ok y := by
  have hpar : ∀ {p : Position} {children : List Expr}, (Expr.par p children).Named →
      (meaning s ρ operand (.par p children) = .ok y ↔
        ∃ xs, meanings s ρ operand (Expr.par p children).sides = .ok xs ∧ Tensor.concat xs = .ok y) := by
    intro p children hnamed
    have hsides : (∃ xs, meanings s ρ operand children = .ok xs ∧ Tensor.concat ([] ++ xs ++ []) = .ok y) ↔
        ∃ xs, meanings s ρ operand (Expr.allSides children) = .ok xs ∧ Tensor.concat ([] ++ xs ++ []) = .ok y :=
      besides_sides hrows hroom [] [] hnamed.2
    simp only [List.nil_append, List.append_nil] at hsides
    rw [Expr.sides, ← hsides, meaning]
    exact ⟨bind_ok, fun ⟨xs, hxs, hy⟩ => by rw [hxs]; exact hy⟩
  have halone : ∀ {p : Position} {children : List Expr} {d : Expr}, (Expr.par p children).Named →
      (Expr.par p children).sides ≠ [d] := by
    intro p children d hnamed hd
    have hlength := hnamed.two_le_sides
    rw [hd] at hlength
    exact absurd hlength (show ¬2 ≤ 1 by decide)
  rcases e.par_or_sides with ⟨p, children, rfl⟩ | hsides
  · rcases e'.par_or_sides with ⟨p', children', rfl⟩ | hsides'
    · rw [hpar he, hpar he', h]
    · exact absurd (h.trans hsides') (halone he)
  · rcases e'.par_or_sides with ⟨p', children', rfl⟩ | hsides'
    · exact absurd (h.symm.trans hsides) (halone he')
    · rw [List.singleton_inj.mp (hsides.symm.trans (h.trans hsides'))]

end

/-! ## Evaluating -/

section

variable {ops : Registries} {settings : Settings} {c c' : Compiler} {e e' : Expr} {m m' : Model}

/-- Of two formulas that put the same formulas side by side, one has a model if the other one has. -/
theorem gives_sides (hc : Reachable ops settings c) (hc' : Reachable ops settings c') (he : e.Named) (he' : e'.Named)
    (h : e.unplaced.sides = e'.unplaced.sides) : (∃ m, c.Gives e m) ↔ ∃ m', c'.Gives e' m' := by
  rw [gives_iff_planned hc he, gives_iff_planned hc' he', ← (plan_unplaced e [] .input).ok_iff, ← (plan_unplaced e' [] .input).ok_iff,
    plan_sides [] .input he.unplaced, plan_sides [] .input he'.unplaced, h]

/-- A model gives the labels that its formula means, without regard to places. -/
theorem evaluate_unplaced (hc : Reachable ops settings c) (hcalm : ops.Calm) (he : e.Named) (hm : c.Gives e m) {input : Input}
    (hinput : m.spec.check (some input) = .ok input) (maxIterations : Int) :
    outcome (Evaluator.evaluate maxIterations true m (some input)).result =
      outcome (meaning ⟨ops, settings, input, maxIterations⟩ [] (.ok input.x) e.unplaced) := by
  obtain ⟨t, ht⟩ := (gives_iff_planned hc he).mp ⟨m, hm⟩
  have hplan : Agree Eq (e.unplaced.plan ops settings [] .input).result (e.plan ops settings [] .input).result :=
    plan_unplaced e [] .input
  rw [ht] at hplan
  obtain ⟨t', ht', rfl⟩ := hplan.of_ok_right
  have hbelow : Term.Below .input [] := fun k hk => hk.elim
  rw [evaluate_value hc hcalm he hm (plan_ok e ht).1 hinput]
  exact congrArg outcome (value_term ⟨ops, settings, input, maxIterations⟩ e.unplaced hbelow (plan_ok _ ht').1).2

/-- Models of two formulas that put the same formulas side by side give the same labels. -/
theorem evaluate_sides (hc : Reachable ops settings c) (hc' : Reachable ops settings c') (hcalm : ops.Calm) (he : e.Named)
    (he' : e'.Named) (h : e.unplaced.sides = e'.unplaced.sides) (hm : c.Gives e m) (hm' : c'.Gives e' m') (maxIterations : Int)
    (live : Bool) (input : Option Input) {labels : Tensor} (hrows : 0 ≤ labels.rows) (hroom : labels.data.size ≤ Tensor.capacity) :
    (Evaluator.evaluate maxIterations live m input).result = .ok labels ↔
      (Evaluator.evaluate maxIterations live m' input).result = .ok labels := by
  cases live with
  | false =>
    have hcanceled : ∀ m : Model, (Evaluator.evaluate maxIterations false m input).result = .error .canceled := fun m => rfl
    rw [hcanceled m, hcanceled m']
  | true =>
    have hspec := gives_spec hc he hm
    have hspec' := gives_spec hc' he' hm'
    cases hcheck : settings.input.check input with
    | error f => rw [Evaluator.evaluate_refused (hspec ▸ hcheck), Evaluator.evaluate_refused (hspec' ▸ hcheck)]
    | ok i =>
      cases input with
      | none => cases hcheck
      | some input =>
        obtain ⟨rfl, -⟩ := check_eq_ok.mp hcheck
        rw [← outcome_eq_ok, ← outcome_eq_ok, evaluate_unplaced hc hcalm he hm (hspec ▸ hcheck),
          evaluate_unplaced hc' hcalm he' hm' (hspec' ▸ hcheck), outcome_eq_ok, outcome_eq_ok]
        exact meaning_sides hrows hroom he.unplaced he'.unplaced h

end

/-! ## Any groups -/

/-- Grouping does not matter side by side. Tensors put side by side group by group are those put side by side in one go, also where
either fails, and neither fails for tensors of one height with room for all labels. A part is found again in the columns that it has
taken up, as long as their number can be counted in words. And formulas that put the same formulas side by side, in whatever groups, as
the three ways to group three formulas do, compile alike and evaluate to the same labels on every input. -/
theorem regrouping_keeps_labels :
    (∀ (groups : List (List Tensor)) (y : Tensor), (∀ group ∈ groups, group ≠ []) → y.data.size ≤ Tensor.capacity →
      (y.rows < 0 →
        (∀ t ∈ groups.flatten, t.rows = y.rows ∧ t.Complete) ∧ Tensor.labelCount groups.flatten ≤ Tensor.capacity) →
        (Tensor.concatGroups groups = .ok y ↔ Tensor.concat groups.flatten = .ok y)) ∧
    (∀ (groups : List (List Tensor)) (n : Int), groups ≠ [] → (∀ group ∈ groups, group ≠ []) →
      (∀ t ∈ groups.flatten, t.Filled ∧ t.rows = n) → n * (groups.flatten.map Tensor.cols).sum ≤ Tensor.capacity →
        ∃ y, Tensor.concatGroups groups = .ok y ∧ Tensor.concat groups.flatten = .ok y) ∧
    (∀ (before after : List Tensor) (t y : Tensor), (∀ u ∈ before ++ t :: after, u.Filled) →
      ((before ++ t :: after).map Tensor.cols).sum < 2 ^ 63 → Tensor.concat (before ++ t :: after) = .ok y →
      y.data.size ≤ Tensor.capacity →
        y.slice (before.map Tensor.cols).sum ((before.map Tensor.cols).sum + t.cols) = .ok { t with dtype := y.dtype }) ∧
    (∀ (p q p' q' p'' : Position) (e f g : Expr),
      (Expr.par p [e, .par q [f, g]]).unplaced.sides = (Expr.par p'' [e, f, g]).unplaced.sides ∧
        (Expr.par p' [.par q' [e, f], g]).unplaced.sides = (Expr.par p'' [e, f, g]).unplaced.sides) ∧
    ∀ {ops : Registries} {settings : Settings} {c c' : Compiler} {e e' : Expr}, Reachable ops settings c → Reachable ops settings c' →
      ops.Calm → e.Named → e'.Named → e.unplaced.sides = e'.unplaced.sides →
        ((∃ m, c.Gives e m) ↔ ∃ m', c'.Gives e' m') ∧
          ∀ {m m' : Model}, c.Gives e m → c'.Gives e' m' →
            ∀ (maxIterations : Int) (live : Bool) (input : Option Input) (labels : Tensor), 0 ≤ labels.rows →
              labels.data.size ≤ Tensor.capacity →
                ((Evaluator.evaluate maxIterations live m input).result = .ok labels ↔
                  (Evaluator.evaluate maxIterations live m' input).result = .ok labels) := by
  refine ⟨?_, ?_, ?_, Expr.sides_nested, ?_⟩
  · intro groups y hne hroom hlow
    exact Tensor.concatGroups_ok hne hroom fun hneg => Tensor.alongside_of_complete hneg (hlow hneg).1 (hlow hneg).2
  · exact fun groups n hsome hne hts hroom => Tensor.concatGroups_of_filled hsome hne hts hroom
  · exact fun before after t y hfilled hwidth hy hroom => Tensor.slice_concat hfilled hwidth hy hroom
  · intro ops settings c c' e e' hc hc' hcalm he he' h
    refine ⟨gives_sides hc hc' he he' h, fun hm hm' maxIterations live input labels hrows hroom => ?_⟩
    exact evaluate_sides hc hc' hcalm he he' h hm hm' maxIterations live input hrows hroom

namespace Sample

/-- Tensors of two rows: of one column, of none, and of two, in two domains. -/
def parts : List (List Tensor) :=
  [[.column .bool [Label.one, Label.zero], ⟨2, 0, .bool, #[]⟩], [.ofRows 2 .uint8 [[Label.one, Label.zero], [Label.zero, Label.one]]]]

/-- The parts side by side. -/
def whole : Tensor :=
  .ofRows 3 .float64 [[Label.one, Label.one, Label.zero], [Label.zero, Label.zero, Label.one]]

/-- Three operators in two groups. -/
def grouped : Bytes :=
  Bytes.ofString "a||(not||a)"

/-- The same operators in one group. -/
def flat : Bytes :=
  Bytes.ofString "a||not||a"

def groupedExpr : Expr :=
  .par ⟨0, 1, 1⟩ [.atom ⟨0, 1, 1⟩ (Bytes.ofString "a") none,
    .par ⟨4, 1, 5⟩ [.atom ⟨4, 1, 5⟩ (Bytes.ofString "not") none, .atom ⟨9, 1, 10⟩ (Bytes.ofString "a") none]]

def flatExpr : Expr :=
  .par ⟨0, 1, 1⟩ [.atom ⟨0, 1, 1⟩ (Bytes.ofString "a") none, .atom ⟨3, 1, 4⟩ (Bytes.ofString "not") none,
    .atom ⟨8, 1, 9⟩ (Bytes.ofString "a") none]

theorem grouped_parsed : parse grouped = .ok groupedExpr := parse_of_same (by decide +kernel)

theorem flat_parsed : parse flat = .ok flatExpr := parse_of_same (by decide +kernel)

/-- The labels of the three operators on the sample input. -/
def besides : Tensor :=
  .ofRows 3 .bool [[Label.one, Label.zero, Label.one], [Label.zero, Label.one, Label.zero]]

theorem grouped_evaluated : ∃ m, compiler.Returns groupedExpr m ∧ m.spec.check (some input) = .ok input ∧
    (Evaluator.evaluate 0 true m (some input)).result = .ok besides :=
  runs grouped_parsed input besides (by decide +kernel)

theorem flat_named : flatExpr.Named :=
  (parse_wellFormed flat_parsed).named

theorem grouped_named : groupedExpr.Named :=
  (parse_wellFormed grouped_parsed).named

theorem parts_filled : ∀ t ∈ parts.flatten, t.Filled ∧ t.rows = 2 := by
  show ∀ t ∈ [Tensor.column .bool [Label.one, Label.zero], ⟨2, 0, .bool, #[]⟩,
    .ofRows 2 .uint8 [[Label.one, Label.zero], [Label.zero, Label.one]]], t.Filled ∧ t.rows = 2
  rw [List.forall_mem_cons, List.forall_mem_cons, List.forall_mem_singleton]
  exact ⟨⟨Tensor.WellFormed.filled ⟨by decide, by decide, by decide⟩, rfl⟩,
    ⟨Tensor.WellFormed.filled ⟨by decide, by decide, by decide⟩, rfl⟩,
    Tensor.WellFormed.filled ⟨by decide, by decide, by decide⟩, rfl⟩

theorem parts_concat : Tensor.concat parts.flatten = .ok whole :=
  ok_of_toOption (by decide +kernel)

/-- A tensor of the width -1 in its binary form. -/
def thin : Bytes :=
  [0x10, 0xff, 0xff, 0xff, 0xff, 0xff, 0xff, 0xff, 0xff, 0xff, 0x01]

/-- A tensor of the height -3 with a single label, so wide that this is what its shape calls for in words. -/
def deep : Bytes :=
  [0x08, 0xfd, 0xff, 0xff, 0xff, 0xff, 0xff, 0xff, 0xff, 0xff, 0x01, 0x10, 0xd5, 0xaa, 0xd5, 0xaa, 0xd5, 0xaa, 0xd5, 0xaa, 0x55,
    0x21, 0x00, 0x00, 0x00, 0x00, 0x00, 0x00, 0xf0, 0x3f]

end Sample

/-- The parts of the sample in two groups and in one, the last part cut out again, and the three operators in two groups and in one. -/
theorem regrouping_keeps_labels_sample :
    Tensor.concatGroups Sample.parts = .ok Sample.whole ∧ (∃ y, Tensor.concatGroups Sample.parts = .ok y) ∧
      Sample.whole.slice 1 3 = .ok (.ofRows 2 .float64 [[Label.one, Label.zero], [Label.zero, Label.one]]) ∧
      ∃ m m', Sample.compiler.Gives Sample.groupedExpr m ∧ Sample.compiler.Gives Sample.flatExpr m' ∧
        (Evaluator.evaluate 0 true m (some Sample.input)).result = .ok Sample.besides ∧
        (Evaluator.evaluate 0 true m' (some Sample.input)).result = .ok Sample.besides := by
  obtain ⟨hgroups, hroom, hslice, -, hformulas⟩ := regrouping_keeps_labels
  have hne : ∀ group ∈ Sample.parts, group ≠ [] := by decide
  obtain ⟨y, hy, -⟩ := hroom Sample.parts 2 (by decide) hne Sample.parts_filled (by decide)
  obtain ⟨m, hm, -, hlabels⟩ := Sample.grouped_evaluated
  obtain ⟨hgives, hevaluate⟩ := hformulas Sample.reachable Sample.reachable Builtin.registries_calm Sample.grouped_named
    Sample.flat_named (by rfl)
  obtain ⟨m', hm'⟩ := hgives.mp ⟨m, hm.gives⟩
  refine ⟨?_, ⟨y, hy⟩, ?_, m, m', hm.gives, hm', hlabels, ?_⟩
  · exact (hgroups Sample.parts Sample.whole hne (by decide) (fun hneg => absurd hneg (by decide))).mpr Sample.parts_concat
  · exact hslice [.column .bool [Label.one, Label.zero], ⟨2, 0, .bool, #[]⟩] [] _ Sample.whole
      (fun u hu => (Sample.parts_filled u hu).1) (by decide) Sample.parts_concat (by decide)
  · exact (hevaluate hm.gives hm' 0 true (some Sample.input) Sample.besides (by decide) (by decide)).mp hlabels

/-- Two tensors without rows are together one column too wide for words, and the columns of the first one are not found again. Where a
decoded tensor has a negative width, there are no columns of it to be found, and where it has a negative height, they are found, but its
label is lost. -/
theorem slice_lost_beyond_words :
    (∃ x y, Tensor.zeros 0 (2 ^ 62) .float64 = .ok x ∧ x.cols = 2 ^ 62 ∧ Tensor.concat [x, x] = .ok y ∧
      y.slice 0 x.cols = .error (.shapeIn "slice" (.columnRange 0 (2 ^ 62) (-2 ^ 63)))) ∧
    (∃ x y, Tensor.decode Sample.thin = .ok x ∧ x.cols = -1 ∧ Tensor.concat [x] = .ok y ∧
      y.slice 0 x.cols = .error (.shapeIn "slice" (.columnRange 0 (-1) (-1)))) ∧
    ∃ x y z, Tensor.decode Sample.deep = .ok x ∧ x.rows = -3 ∧ x.data = #[Label.one] ∧ Tensor.concat [x] = .ok y ∧
      y.slice 0 x.cols = .ok z ∧ z.data = #[Label.zero] := by
  refine ⟨⟨⟨0, 2 ^ 62, .float64, #[]⟩, ⟨0, -2 ^ 63, .float64, #[]⟩, by rfl, rfl, by rfl, by rfl⟩,
    ⟨⟨0, -1, .float64, #[]⟩, ⟨0, -1, .float64, #[]⟩, ?_, rfl, by rfl, by rfl⟩,
    ⟨⟨-3, (2 ^ 64 - 1) / 3, .float64, #[Label.one]⟩, ⟨-3, (2 ^ 64 - 1) / 3, .float64, #[Label.zero]⟩,
      ⟨-3, (2 ^ 64 - 1) / 3, .float64, #[Label.zero]⟩, ?_, rfl, rfl, ?_, ?_, rfl⟩⟩
  · exact ok_of_toOption (by decide +kernel)
  · exact ok_of_toOption (by decide +kernel)
  · exact ok_of_toOption (by decide +kernel)
  · exact ok_of_toOption (by decide +kernel)

end ModalGraph
