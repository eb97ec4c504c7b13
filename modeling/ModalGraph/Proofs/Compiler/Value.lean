import ModalGraph.Proofs.Compiler.Ledger
import ModalGraph.Proofs.Evaluator.Meaning

/-!
# The value of a term

A term has a value under the labels of its variables, which are found by their keys (`Term.value`). It depends on the variables that
the term mentions only (`Term.value_congr`). The value of the term that a formula stands for is the meaning of the formula
(`value_term`): the binders around the formula give its variables their labels by name, and give the variables of the term the same
labels by depth. The operand of a fixpoint does not mention the fixpoint's variable, so it has one value inside and outside the body.
-/

namespace ModalGraph

open Formula Compiler

namespace Term

mutual

/-- The labels of a term, given the labels of variables by key. -/
def value (s : Scene) (scope : Evaluator.Scope) : Term → Except Failure Tensor
  | .input => .ok s.input.x
  | .psi name arg t => t.value s scope >>= s.atom name arg
  | .concat ts => values s scope ts >>= Tensor.concat
  | .diamond direction phi sigma t => t.value s scope >>= s.diamond direction phi sigma
  | .var depth base =>
    match scope.lookup (variableKey depth base) with
    | some labels => .ok labels
    | none => .error (.strayVariable [])
  | .fix least depth base t => s.fixpoint least base fun labels => t.value s ((variableKey depth base, labels) :: scope)

/-- The labels of several terms. -/
def values (s : Scene) (scope : Evaluator.Scope) : List Term → Except Failure (List Tensor)
  | [] => .ok []
  | t :: ts => do
    let x ← t.value s scope
    let xs ← values s scope ts
    return x :: xs

end

mutual

/-- Whether a term depends on the variable of a key. -/
def Mentions (k : Bytes) : Term → Prop
  | .input => False
  | .psi _ _ t => t.Mentions k
  | .concat ts => AnyMentions k ts
  | .diamond _ _ _ t => t.Mentions k
  | .var depth base => k = variableKey depth base
  | .fix _ depth base t => k ≠ variableKey depth base ∧ t.Mentions k

/-- Whether one of several terms depends on the variable of a key. -/
def AnyMentions (k : Bytes) : List Term → Prop
  | [] => False
  | t :: ts => t.Mentions k ∨ AnyMentions k ts

end

mutual

/-- The value of a term depends on the labels of the variables that it mentions only. -/
theorem value_congr (s : Scene) : ∀ (t : Term) {scope scope' : Evaluator.Scope},
    (∀ k, t.Mentions k → scope.lookup k = scope'.lookup k) → t.value s scope = t.value s scope'
  | .input, _, _, _ => rfl
  | .psi name arg t, _, _, h => by rw [value, value, value_congr s t h]
  | .concat ts, _, _, h => by rw [value, value, values_congr s ts h]
  | .diamond direction phi sigma t, _, _, h => by rw [value, value, value_congr s t h]
  | .var depth base, _, _, h => by rw [value, value, h _ rfl]
  | .fix least depth base t, _, _, h => by
    rw [value, value]
    congr 1
    funext labels
    refine value_congr s t fun k hk => ?_
    rw [List.lookup_cons, List.lookup_cons]
    by_cases hkey : k = variableKey depth base
    · simp [hkey]
    · rw [h k ⟨hkey, hk⟩]

/-- The values of several terms depend on the labels of the variables that they mention only. -/
theorem values_congr (s : Scene) : ∀ (ts : List Term) {scope scope' : Evaluator.Scope},
    (∀ k, AnyMentions k ts → scope.lookup k = scope'.lookup k) → values s scope ts = values s scope' ts
  | [], _, _, _ => rfl
  | t :: ts, _, _, h => by
    rw [values, values, value_congr s t fun k hk => h k (.inl hk), values_congr s ts fun k hk => h k (.inr hk)]

end

end Term

/-! ## Formulas below binders -/

/-- A binder that a formula stands below: its variable, its base, and the labels assigned. -/
structure Frame where
  name : Bytes
  base : Bytes
  labels : Tensor

namespace Frame

/-- The variables with their bases. -/
def declared (fs : List Frame) : List (Bytes × Bytes) :=
  fs.map fun f => (f.name, f.base)

/-- The labels by the names of the variables. -/
def assignment (fs : List Frame) : Assignment :=
  fs.map fun f => (f.name, f.labels)

/-- The labels by the keys of the variables. -/
def scope : List Frame → Evaluator.Scope
  | [] => []
  | f :: fs => (variableKey fs.length f.base, f.labels) :: scope fs

/-- The keys of the variables. -/
def keys : List Frame → List Bytes
  | [] => []
  | f :: fs => variableKey fs.length f.base :: keys fs

theorem length_declared (fs : List Frame) : (declared fs).length = fs.length :=
  List.length_map ..

/-- Keys of variables below fewer binders name smaller depths. -/
theorem mem_keys {fs : List Frame} {k : Bytes} (h : k ∈ keys fs) : ∃ depth base, depth < fs.length ∧ k = variableKey depth base := by
  induction fs with
  | nil => cases h
  | cons f fs ih =>
    rcases List.mem_cons.mp h with rfl | h
    · exact ⟨fs.length, f.base, Nat.lt_succ_self _, rfl⟩
    · obtain ⟨depth, base, hlt, rfl⟩ := ih h
      exact ⟨depth, base, Nat.lt_succ_of_lt hlt, rfl⟩

/-- The key of a binder's variable is not the key of a variable further out. -/
theorem variableKey_notMem (fs : List Frame) (base : Bytes) : variableKey fs.length base ∉ keys fs := by
  intro h
  obtain ⟨depth, base', hlt, heq⟩ := mem_keys h
  exact absurd (TermAux.variableKey_depth heq) (Nat.ne_of_gt hlt)

/-- A variable has the labels of its binder, by name as well as by key. -/
theorem lookup_boundTerm {fs : List Frame} {name : Bytes} {t : Term} (h : Expr.boundTerm (declared fs) name = some t) :
    ∃ depth base labels, t = .var depth base ∧ variableKey depth base ∈ keys fs ∧ (assignment fs).lookup name = some labels ∧
      (scope fs).lookup (variableKey depth base) = some labels := by
  induction fs with
  | nil => cases h
  | cons f fs ih =>
    rw [declared, List.map_cons, Expr.boundTerm, List.length_map] at h
    rw [assignment, List.map_cons, List.lookup_cons, scope, keys]
    by_cases hname : f.name = name
    · subst hname
      rw [if_pos (beq_self_eq_true _)] at h
      obtain rfl := Option.some.inj h
      exact ⟨fs.length, f.base, f.labels, rfl, List.mem_cons_self, by simp, by simp⟩
    · rw [if_neg (by simpa using hname)] at h
      obtain ⟨depth, base, labels, rfl, hmem, hlook, hscope⟩ := ih h
      refine ⟨depth, base, labels, rfl, List.mem_cons_of_mem _ hmem, ?_, ?_⟩
      · rw [show (name == f.name) = false by simpa using Ne.symm hname]
        exact hlook
      · have hne : variableKey depth base ≠ variableKey fs.length f.base := by
          intro he
          rw [he] at hmem
          exact variableKey_notMem fs f.base hmem
        rw [List.lookup_cons, show (variableKey depth base == variableKey fs.length f.base) = false by simpa using hne]
        exact hscope

end Frame

/-- The variables of a term are among those of some binders. -/
def Term.Below (t : Term) (fs : List Frame) : Prop :=
  ∀ k, t.Mentions k → k ∈ Frame.keys fs

theorem Term.Below.cons {t : Term} {fs : List Frame} (h : t.Below fs) (f : Frame) : t.Below (f :: fs) :=
  fun k hk => List.mem_cons_of_mem _ (h k hk)

/-- A binder further in does not change the value of a term. -/
theorem Term.Below.value_cons {t : Term} {fs : List Frame} (h : t.Below fs) (s : Scene) (f : Frame) :
    t.value s (Frame.scope (f :: fs)) = t.value s (Frame.scope fs) := by
  refine t.value_congr s fun k hk => ?_
  have hne : k ≠ variableKey fs.length f.base := by
    rintro rfl
    exact Frame.variableKey_notMem fs f.base (h _ hk)
  rw [Frame.scope, List.lookup_cons, show (k == variableKey fs.length f.base) = false by simpa using hne]

mutual

/-- The term that a formula stands for on an operand has the meaning of the formula as its value. -/
theorem value_term (s : Scene) : ∀ (e : Expr) {fs : List Frame} {operand t : Term}, operand.Below fs →
    e.term (Frame.declared fs) operand = some t →
      t.Below fs ∧ t.value s (Frame.scope fs) = meaning s (Frame.assignment fs) (operand.value s (Frame.scope fs)) e
  | .atom _ name arg, fs, operand, t, ho, ht => by
    obtain rfl := Option.some.inj ht
    exact ⟨ho, rfl⟩
  | .seq _ left right, fs, operand, t, ho, ht => by
    rw [Expr.term, Option.bind_eq_bind, Option.bind_eq_some_iff] at ht
    obtain ⟨l, hl, hr⟩ := ht
    obtain ⟨hbl, hvl⟩ := value_term s left ho hl
    obtain ⟨hbr, hvr⟩ := value_term s right hbl hr
    exact ⟨hbr, by rw [hvr, hvl, meaning]⟩
  | .par _ children, fs, operand, t, ho, ht => by
    rw [Expr.term, Option.bind_eq_bind, Option.bind_eq_some_iff] at ht
    obtain ⟨ts, hts, ht⟩ := ht
    obtain rfl := Option.some.inj ht
    obtain ⟨hb, hv⟩ := values_terms s children ho hts
    exact ⟨hb, by rw [Term.value, hv, meaning]⟩
  | .diamond _ direction phi sigma, fs, operand, t, ho, ht => by
    obtain rfl := Option.some.inj ht
    exact ⟨ho, rfl⟩
  | .var pos name, fs, operand, t, ho, ht => by
    obtain ⟨depth, base, labels, rfl, hmem, hlook, hscope⟩ := Frame.lookup_boundTerm ht
    refine ⟨?_, ?_⟩
    · rintro k rfl
      exact hmem
    · rw [Term.value, hscope, meaning, hlook]
  | .fix _ least v base body, fs, operand, t, ho, ht => by
    rw [Expr.term, Option.bind_eq_bind, Option.bind_eq_some_iff] at ht
    obtain ⟨u, hu, ht⟩ := ht
    obtain rfl := Option.some.inj ht
    -- The body is compiled below one more binder; its labels are what the fixpoint iterates over.
    have hbody : ∀ labels : Tensor, u.Below (⟨v, base, labels⟩ :: fs) ∧
        u.value s ((variableKey fs.length base, labels) :: Frame.scope fs) =
          meaning s ((v, labels) :: Frame.assignment fs) (operand.value s (Frame.scope fs)) body := by
      intro labels
      obtain ⟨hb, hv⟩ := value_term s body (ho.cons ⟨v, base, labels⟩) hu
      exact ⟨hb, by rw [← ho.value_cons s ⟨v, base, labels⟩]; exact hv⟩
    refine ⟨?_, ?_⟩
    · rintro k ⟨hne, hk⟩
      rw [Frame.length_declared] at hne
      rcases List.mem_cons.mp ((hbody default).1 k hk) with rfl | hk
      · exact absurd rfl hne
      · exact hk
    · rw [Term.value, meaning, Frame.length_declared]
      congr 1
      funext labels
      exact (hbody labels).2
  | .hole, _, _, _, _, ht => by cases ht

/-- The terms that several formulas stand for on one operand. -/
theorem values_terms (s : Scene) : ∀ (es : List Expr) {fs : List Frame} {operand : Term} {ts : List Term}, operand.Below fs →
    Expr.terms (Frame.declared fs) operand es = some ts →
      (∀ k, Term.AnyMentions k ts → k ∈ Frame.keys fs) ∧
        Term.values s (Frame.scope fs) ts = meanings s (Frame.assignment fs) (operand.value s (Frame.scope fs)) es
  | [], fs, operand, ts, ho, ht => by
    obtain rfl := Option.some.inj ht
    exact ⟨fun k hk => hk.elim, rfl⟩
  | e :: es, fs, operand, ts, ho, ht => by
    rw [Expr.terms, Option.bind_eq_bind, Option.bind_eq_some_iff] at ht
    obtain ⟨t, ht', ht⟩ := ht
    rw [Option.bind_eq_bind, Option.bind_eq_some_iff] at ht
    obtain ⟨us, hus, ht⟩ := ht
    obtain rfl := Option.some.inj ht
    obtain ⟨hb, hv⟩ := value_term s e ho ht'
    obtain ⟨hbs, hvs⟩ := values_terms s es ho hus
    refine ⟨?_, by rw [Term.values, hv, hvs, meanings]⟩
    rintro k (hk | hk)
    · exact hb k hk
    · exact hbs k hk

end

end ModalGraph
