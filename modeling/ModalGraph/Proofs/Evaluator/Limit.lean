import ModalGraph.Proofs.Evaluator.Course

/-!
# A higher limit

The limit on iterations counts the turns of one run of one fixpoint, so in a nest of fixpoints it applies again in every turn of the
fixpoints around. It says nothing but when to give up: a run of a fixpoint that is over within the limit takes the same turns under a
higher one. So an evaluation either fails because the limit is reached, or gives, under every higher limit, the same labels or failure
and the same reports (`evaluate_eq_or_spent`).

Two steps are compared from one and the same run (`UpTo`), which covers the labels that are kept and the reports as well.
-/

namespace ModalGraph

namespace Evaluator

/-- A step that gives what another one gives and leaves the same run, unless it fails because a limit is reached. -/
def UpTo {α : Type} (limit : Nat) (act act' : Eval α) : Prop :=
  ∀ r, act.run r = act'.run r ∨ ∃ key, (act.run r).1 = .error (.nonTermination key limit)

namespace UpTo

variable {α β : Type} {limit limit' : Nat} {act act' : Eval α}

theorem refl (limit : Nat) (act : Eval α) : UpTo limit act act :=
  fun _ => .inl rfl

theorem bind {f f' : α → Eval β} (h : UpTo limit act act') (hf : ∀ a, UpTo limit (f a) (f' a)) :
    UpTo limit (act >>= f) (act' >>= f') := by
  intro r
  rw [run_bind, run_bind]
  rcases h r with heq | ⟨key, hspent⟩
  · rw [← heq]
    rcases act.run r with ⟨x, r'⟩
    cases x with
    | error e => exact .inl rfl
    | ok a => exact hf a r'
  · rcases hrun : act.run r with ⟨x, r'⟩
    rw [hrun] at hspent
    obtain rfl : x = _ := hspent
    exact .inr ⟨key, rfl⟩

theorem inIteration (h : UpTo limit act act') : UpTo limit (Evaluator.inIteration act) (Evaluator.inIteration act') := by
  intro r
  rw [run_inIteration, run_inIteration]
  rcases h { r with current := [] } with heq | hspent
  · exact .inl (by rw [heq])
  · exact .inr hspent

theorem mapM {f f' : Nat → Eval Tensor} (h : ∀ i, UpTo limit (f i) (f' i)) (ids : List Nat) :
    UpTo limit (ids.mapM f) (ids.mapM f') := by
  induction ids with
  | nil => exact refl limit _
  | cons i ids ih =>
    rw [List.mapM_cons, List.mapM_cons]
    exact (h i).bind fun x => ih.bind fun xs => refl limit _

/-- Iterations that have taken the same number of turns. The one with the higher limit has as many turns more left as its limit is
higher, so both count alike, and only the lower limit is reached. -/
theorem iterate {key : Bytes} {step step' : Tensor → Eval Tensor} (h : ∀ x, UpTo limit (step x) (step' x)) (hle : limit ≤ limit')
    (remaining : Nat) (hremaining : remaining ≤ limit) (x : Tensor) :
    UpTo limit (Evaluator.iterate key limit step remaining x)
      (Evaluator.iterate key limit' step' (remaining + (limit' - limit)) x) := by
  induction remaining generalizing x with
  | zero =>
    intro r
    -- Whether the caller still waits is asked first under either limit.
    rcases hasked : checkLive.run r with ⟨f | _, r'⟩
    · refine .inl ?_
      cases limit' - limit with
      | zero => rw [Nat.add_zero, Evaluator.iterate, Evaluator.iterate, run_bind, run_bind, hasked]
      | succ more => rw [Nat.zero_add, Evaluator.iterate, Evaluator.iterate, run_bind, run_bind, hasked]
    · exact .inr ⟨key, by rw [Evaluator.iterate, run_bind_ok hasked, run_fail]⟩
  | succ remaining ih =>
    have hcount : limit' - (remaining + (limit' - limit)) = limit - remaining := by omega
    rw [Nat.succ_add, Evaluator.iterate, Evaluator.iterate, hcount]
    refine (refl limit checkLive).bind fun _ => (h x).bind fun next => ?_
    by_cases heq : next.equal x = true
    · rw [if_pos heq, if_pos heq]
      exact refl limit _
    · rw [if_neg heq, if_neg heq]
      exact ih (Nat.le_of_succ_le hremaining) next

end UpTo

section

variable {m : Model} {input : Input} {maxIterations maxIterations' : Int}

/-- A limit that is set is the limit of every fixpoint. -/
theorem limit_of_pos (h : 1 ≤ maxIterations) (width : Nat) : Task.limit ⟨m, input, maxIterations⟩ width = maxIterations.toNat := by
  exact if_pos h

/-- Computing a node under a lower and a higher limit, given the nodes that it asks for. -/
theorem compute_upTo (hpos : 1 ≤ maxIterations) (hle : maxIterations ≤ maxIterations') {ask ask' : Scope → Nat → Eval Tensor}
    (hask : ∀ scope i, UpTo maxIterations.toNat (ask scope i) (ask' scope i)) (scope : Scope) (n : Node) :
    UpTo maxIterations.toNat (compute ⟨m, input, maxIterations⟩ ask scope n) (compute ⟨m, input, maxIterations'⟩ ask' scope n) := by
  unfold compute
  cases n.kind with
  | input => exact UpTo.refl _ _
  | psi =>
    dsimp only
    split
    · exact (hask scope _).bind fun x => UpTo.refl _ _
    · exact UpTo.refl _ _
  | concat => exact (UpTo.mapM (hask scope) n.inputs).bind fun parts => UpTo.refl _ _
  | diamond =>
    dsimp only
    split
    · exact (hask scope _).bind fun x => UpTo.refl _ _
    · exact UpTo.refl _ _
  | «variable» => exact UpTo.refl _ _
  | fixpoint =>
    dsimp only
    split
    · rename_i b body _ _
      have hmore : maxIterations'.toNat = maxIterations.toNat + (maxIterations'.toNat - maxIterations.toNat) := by omega
      have hturn : ∀ x, UpTo maxIterations.toNat (bodyStep ⟨m, input, maxIterations⟩ ask scope b body x)
          (bodyStep ⟨m, input, maxIterations'⟩ ask' scope b body x) :=
        fun x => (hask ((b.var, x) :: scope) body).inIteration.bind fun y => UpTo.refl _ _
      have hiter : ∀ x₀, UpTo maxIterations.toNat
          (iterate n.key maxIterations.toNat (bodyStep ⟨m, input, maxIterations⟩ ask scope b body) maxIterations.toNat x₀)
          (iterate n.key maxIterations'.toNat (bodyStep ⟨m, input, maxIterations'⟩ ask' scope b body)
            (maxIterations.toNat + (maxIterations'.toNat - maxIterations.toNat)) x₀) :=
        UpTo.iterate hturn (Int.toNat_le_toNat hle) _ (Nat.le_refl _)
      rw [← hmore] at hiter
      unfold fixpoint
      dsimp only
      rw [limit_of_pos hpos, limit_of_pos (hpos.trans hle)]
      -- Both start from the same labels, which the limit has no part in.
      refine (UpTo.refl _ (liftM (Task.start ⟨m, input, maxIterations⟩ b))).bind fun x₀ => ?_
      exact (hiter x₀).bind fun p => UpTo.refl _ _
    · exact UpTo.refl _ _
  | other code => exact UpTo.refl _ _

/-- Evaluating a node under a lower and a higher limit. -/
theorem eval_upTo (hpos : 1 ≤ maxIterations) (hle : maxIterations ≤ maxIterations') (fuel : Nat) :
    ∀ (scope : Scope) (i : Nat), UpTo maxIterations.toNat (eval ⟨m, input, maxIterations⟩ fuel scope i)
      (eval ⟨m, input, maxIterations'⟩ fuel scope i) := by
  induction fuel with
  | zero => exact fun scope i => UpTo.refl _ _
  | succ fuel ih =>
    intro scope i
    unfold eval
    dsimp only
    cases m.node? i with
    | none => exact UpTo.refl _ _
    | some n =>
      dsimp only
      refine (UpTo.refl _ _).bind fun r => ?_
      cases r.known n with
      | some v => exact UpTo.refl _ _
      | none => exact (compute_upTo hpos hle ih scope n).bind fun v => UpTo.refl _ _

end

/-- An evaluation fails because its limit is reached, or gives under a higher limit the same labels or failure, with the same reports
in the same order. -/
theorem evaluate_eq_or_spent {maxIterations maxIterations' : Int} (hpos : 1 ≤ maxIterations) (hle : maxIterations ≤ maxIterations')
    (live : Bool) (m : Model) (input? : Option Input) :
    evaluate maxIterations live m input? = evaluate maxIterations' live m input? ∨
      ∃ key, (evaluate maxIterations live m input?).result = .error (.nonTermination key maxIterations.toNat) := by
  cases live with
  | false =>
    have hcanceled : ∀ k, evaluate k false m input? = ⟨.error .canceled, [], .ofLive false⟩ := fun k => rfl
    exact .inl ((hcanceled _).trans (hcanceled _).symm)
  | true =>
    cases hcheck : m.spec.check input? with
    | error f =>
      exact .inl ((evaluate_refused hcheck).trans (evaluate_refused hcheck).symm)
    | ok input =>
      rw [evaluate_checked hcheck, evaluate_checked hcheck]
      have hupTo : UpTo maxIterations.toNat (eval ⟨m, input, maxIterations⟩ (m.nodes.length + 1) [] m.output)
          (eval ⟨m, input, maxIterations'⟩ (m.nodes.length + 1) [] m.output) := eval_upTo hpos hle _ _ _
      rcases hupTo {} with heq | hspent
      · have hrun : run ⟨m, input, maxIterations⟩ = run ⟨m, input, maxIterations'⟩ := heq
        exact .inl (by rw [hrun])
      · exact .inr hspent

end Evaluator

open Evaluator

/-- An evaluation that succeeds under a limit gives the same under every higher one: the same labels of the same domain, and the same
reports in the same order, those on fixpoints with the number of their turns among them. This holds of every model and every input. -/
theorem evaluate_raised_limit {maxIterations maxIterations' : Int} (hpos : 1 ≤ maxIterations) (hle : maxIterations ≤ maxIterations')
    {live : Bool} {m : Model} {input? : Option Input} {labels : Tensor}
    (h : (evaluate maxIterations live m input?).result = .ok labels) :
    (evaluate maxIterations' live m input?).result = .ok labels ∧
      (evaluate maxIterations' live m input?).events = (evaluate maxIterations live m input?).events := by
  rcases evaluate_eq_or_spent hpos hle live m input? with heq | ⟨key, hspent⟩
  · rw [← heq]
    exact ⟨h, rfl⟩
  · cases hspent.symm.trans h

namespace Sample

/-- A fixpoint inside another one, whose variable it uses. -/
def nested : Bytes :=
  Bytes.ofString "mu X,r.((a||mu Y,r.((X||Y);or);|>or);or)"

/-- The model of the two fixpoints. -/
def nestedModel : Model :=
  (compiler.compile false nested).result.toOption.get (by decide +kernel)

/-- Three turns are enough for the two fixpoints. -/
theorem nested_settles : (evaluate 3 true nestedModel (some input)).result = .ok labels :=
  ok_of_toOption (by decide +kernel)

end Sample

/-- The sample fixpoints need three turns at most, and take as many where a thousand are allowed. -/
theorem evaluate_raised_limit_sample : (evaluate 3 true Sample.nestedModel (some Sample.input)).result = .ok Sample.labels ∧
    (evaluate 1000 true Sample.nestedModel (some Sample.input)).result = .ok Sample.labels ∧
      (evaluate 1000 true Sample.nestedModel (some Sample.input)).events =
        (evaluate 3 true Sample.nestedModel (some Sample.input)).events :=
  ⟨Sample.nested_settles, evaluate_raised_limit (by decide) (by decide) Sample.nested_settles⟩

end ModalGraph
