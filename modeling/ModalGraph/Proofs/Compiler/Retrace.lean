import ModalGraph.Proofs.Compiler.Coherent
import ModalGraph.Proofs.Formula.Variant

/-!
# Compiling a variant of a formula

What a compiler looks up for a formula depends only on the keys of the variables in scope, and these on the depth and the base of a
binder. `retrace` follows the walk of the compiler over a formula as long as every node on the way is there. A walk that succeeds is
retraced from every later store (`expr_retraced`), a walk that is retraced gives the node and makes none (`expr_repeats`), and variants
are retraced alike (`retrace_variant`). So a variant of a formula that was compiled gets the same node, and the store stays as it is
(`variant_compiles_to_same_node`).
-/

namespace ModalGraph

open Formula

namespace Store

variable {s t : Store}

/-- A coherent store is an ordered table. -/
theorem Coherent.ordered (h : s.Coherent) : NodeTable.Ordered s.node? Node.deps fun i => i := by
  refine ⟨h.id_eq, fun hn d hd => ?_, fun hn d hd => ?_⟩
  · obtain ⟨hlt, -⟩ := h.deps _ (mem_of_node? hn) d hd
    rwa [h.id_eq hn] at hlt
  · obtain ⟨-, m, hm, -⟩ := h.deps _ (mem_of_node? hn) d hd
    exact ⟨m, hm⟩

/-- The model of a node takes along the same nodes in a store that keeps them. -/
theorem Kept.reached_eq (hkept : s.Kept t) (h : s.Coherent) {out : Node} (hout : s.Has out) :
    reached t.node? Node.deps t.size out.id = reached s.node? Node.deps s.size out.id := by
  refine reached_congr h.ordered (fun i hi => ?_) (Array.getElem?_eq_some_iff.mp hout).1 hkept.size_le
  have hn : s.node? i = some s.nodes[i] := Array.getElem?_eq_getElem hi
  rw [hn, hkept.node? hn]

end Store

namespace Compiler

/-! ## Retracing a formula -/

/-- The keys of the variables that names stand for. -/
abbrev Names := Bytes → Option Bytes

/-- Names below one more binder. -/
def Names.bind (σ : Names) (v key : Bytes) : Names :=
  fun x => if x = v then some key else σ x

/-- The names in scope. -/
def names (scope : List Binding) : Names :=
  fun x => (lookup scope x).map Binding.key

theorem names_cons (b : Binding) (scope : List Binding) : names (b :: scope) = (names scope).bind b.name b.key := by
  funext x
  rw [names, lookup, List.find?_cons, Names.bind]
  by_cases h : x = b.name
  · rw [if_pos h, h, beq_self_eq_true]
    rfl
  · rw [if_neg h, beq_false_of_ne (Ne.symm h)]
    rfl

/-- The base of a name, if it has a row that a fixpoint starts from. -/
def startBase? (settings : Settings) (least : Bool) (name : Bytes) : Option Base :=
  (settings.base? name).filter fun base => (base.init least).isOk

theorem startBase?_eq_some {c : Compiler} {least : Bool} {name : Bytes} {base : Base} :
    startBase? c.settings least name = some base ↔ ∃ init, c.fixpointBase least name = .ok (base, init) := by
  rw [startBase?, fixpointBase]
  cases c.settings.base? name with
  | none => exact ⟨nofun, fun ⟨_, h⟩ => by cases h⟩
  | some b =>
    rw [Option.filter_some]
    dsimp only
    cases b.init least with
    | error f => exact ⟨nofun, fun ⟨_, h⟩ => by cases h⟩
    | ok row =>
      constructor
      · rintro h
        cases h
        exact ⟨row, rfl⟩
      · rintro ⟨_, h⟩
        cases h
        rfl

mutual

/-- The node that compiling a formula on the labels of a node comes to, if that node and all others on the way are in a store. -/
def retrace (settings : Settings) (s : Store) (depth : Nat) (σ : Names) : Expr → Node → Option Node
  | .atom _ name arg, input => s.find? (applied (bracketed name arg) input.key)
  | .seq _ left right, input => (retrace settings s depth σ left input).bind (retrace settings s depth σ right)
  | .par _ children, input =>
    if children.isEmpty then none
    else (retraceAll settings s depth σ children input).bind fun ns => s.find? (concatKey (ns.map Node.key))
  | .diamond _ direction phi sigma, input =>
    if settings.input.adjacency then s.find? (applied (Expr.diamondKey direction phi sigma) input.key) else none
  | .var _ name, _ => (σ name).bind s.find?
  | .fix _ least name baseName body, input =>
    (startBase? settings least baseName).bind fun base =>
      (retrace settings s (depth + 1) (σ.bind name (variableKey depth baseName)) body input).bind fun n =>
        if n.width ≠ unknownWidth ∧ n.width ≠ base.width then none
        else s.find? (fixpointKey least (variableKey depth baseName) n.key)
  | .hole, _ => none

/-- The nodes that compiling several formulas on the labels of one node comes to, if they and all others on the way are in a store. -/
def retraceAll (settings : Settings) (s : Store) (depth : Nat) (σ : Names) : List Expr → Node → Option (List Node)
  | [], _ => some []
  | e :: es, input =>
    (retrace settings s depth σ e input).bind fun n => (retraceAll settings s depth σ es input).map fun ns => n :: ns

end

/-! ## Walks that succeed are retraced -/

/-- A node that is returned for a key is found under that key, in a store that keeps the nodes. -/
theorem intern_ok {key : Bytes} {make : Except Failure Node} {p p' : Progress} {n : Node}
    (h : (intern key make).run p = (.ok n, p')) : p.store.Kept p'.store ∧ p'.store.find? key = some n := by
  cases hfind : p.store.find? key with
  | some m =>
    cases (intern_found hfind).symm.trans h
    exact ⟨.refl _, hfind⟩
  | none =>
    cases make with
    | error f => cases (intern_failed hfind).symm.trans h
    | ok m =>
      cases (intern_made hfind).symm.trans h
      exact ⟨Store.kept_push _ _, Store.find?_push hfind rfl⟩

/-- A formula whose node is retraced from every store that keeps the nodes of the one in which it was compiled. -/
def Retraced (c : Compiler) (e : Expr) : Prop :=
  ∀ ⦃scope : List Binding⦄ ⦃input n : Node⦄ ⦃p p' : Progress⦄, p.store.Coherent → p.store.Has input →
    (c.expr scope e input).run p = (.ok n, p') → ∀ ⦃t : Store⦄, p'.store.Kept t →
      retrace c.settings t scope.length (names scope) e input = some n

/-- Several formulas whose nodes are retraced from every store that keeps the nodes of the one in which they were compiled. -/
def AllRetraced (c : Compiler) (es : List Expr) : Prop :=
  ∀ ⦃scope : List Binding⦄ ⦃input : Node⦄ ⦃ns : List Node⦄ ⦃p p' : Progress⦄, p.store.Coherent → p.store.Has input →
    (c.exprs scope es input).run p = (.ok ns, p') → ∀ ⦃t : Store⦄, p'.store.Kept t →
      retraceAll c.settings t scope.length (names scope) es input = some ns

theorem checkBodyWidth_ok {b : Binding} {n : Node} :
    checkBodyWidth b n = .ok () ↔ ¬(n.width ≠ unknownWidth ∧ n.width ≠ b.base.width) := by
  rw [checkBodyWidth]
  split
  · exact ⟨nofun, fun h => absurd ‹_› h⟩
  · exact ⟨fun _ => ‹_›, fun _ => rfl⟩

section

variable {c : Compiler}

theorem atom_retraced (pos : Position) (name : Bytes) (arg : Argument) : c.Retraced (.atom pos name arg) := by
  intro scope input n p p' _ _ hrun t ht
  rw [expr] at hrun
  exact ht.find? (intern_ok hrun).2

theorem seq_retraced (pos : Position) {left right : Expr} (hl : c.Retraced left) (hr : c.Retraced right) :
    c.Retraced (.seq pos left right) := by
  intro scope input n p p'' h hin hrun t ht
  rw [expr] at hrun
  obtain ⟨l, p', hleft, hright⟩ := run_bind_inv hrun
  obtain ⟨-, h', hlin⟩ := (expr_sound c left h hin).ran hleft
  obtain ⟨hkept, -, -⟩ := (expr_sound c right h' hlin).ran hright
  exact Option.bind_eq_some_iff.mpr ⟨l, hl h hin hleft (hkept.trans ht), hr h' hlin hright ht⟩

theorem par_retraced (pos : Position) {children : List Expr} (hc : c.AllRetraced children) : c.Retraced (.par pos children) := by
  intro scope input n p p'' h hin hrun t ht
  rw [expr] at hrun
  split at hrun
  · cases hrun
  · rename_i hne
    obtain ⟨ns, p', hchildren, hintern⟩ := run_bind_inv hrun
    obtain ⟨hkept, hfind⟩ := intern_ok hintern
    exact (if_neg hne).trans (Option.bind_eq_some_iff.mpr ⟨ns, hc h hin hchildren (hkept.trans ht), ht.find? hfind⟩)

theorem diamond_retraced (pos : Position) (direction : Direction) (phi : Option Bytes) (sigma : Bytes) :
    c.Retraced (.diamond pos direction phi sigma) := by
  intro scope input n p p' _ _ hrun t ht
  rw [expr] at hrun
  by_cases hadj : c.settings.input.adjacency = true
  · simp only [hadj, Bool.not_true, Bool.false_eq_true, if_false] at hrun
    exact (if_pos hadj).trans (ht.find? (intern_ok hrun).2)
  · simp only [hadj, Bool.not_false, if_true] at hrun
    cases hrun

theorem var_retraced (pos : Position) (name : Bytes) : c.Retraced (.var pos name) := by
  intro scope input n p p' _ _ hrun t ht
  rw [expr] at hrun
  show (names scope name).bind t.find? = some n
  rw [names]
  cases hlookup : lookup scope name with
  | none =>
    rw [hlookup] at hrun
    cases hrun
  | some b =>
    rw [hlookup] at hrun
    exact ht.find? (intern_ok hrun).2

theorem fix_retraced (pos : Position) (least : Bool) (v base : Bytes) {body : Expr} (hb : c.Retraced body) :
    c.Retraced (.fix pos least v base body) := by
  intro scope input n p p'' h hin hrun t ht
  rw [expr] at hrun
  obtain ⟨⟨b, init⟩, p₁, hstart, hrun⟩ := run_bind_inv hrun
  obtain ⟨hbase, rfl⟩ := run_lift_inv hstart
  obtain ⟨m, p₂, hbody, hrun⟩ := run_bind_inv hrun
  obtain ⟨⟨⟩, p₃, hcheck, hintern⟩ := run_bind_inv hrun
  obtain ⟨hwidth, rfl⟩ := run_lift_inv hcheck
  obtain ⟨hkept, hfind⟩ := intern_ok hintern
  have hretrace := hb h hin hbody (hkept.trans ht)
  rw [names_cons] at hretrace
  refine Option.bind_eq_some_iff.mpr ⟨b, startBase?_eq_some.mpr ⟨init, hbase⟩, Option.bind_eq_some_iff.mpr ⟨m, hretrace, ?_⟩⟩
  exact (if_neg (checkBodyWidth_ok.mp hwidth)).trans (ht.find? hfind)

theorem nil_retraced : c.AllRetraced [] := by
  intro scope input ns p p' _ _ hrun t ht
  rw [exprs] at hrun
  cases hrun
  rfl

theorem cons_retraced {e : Expr} {es : List Expr} (he : c.Retraced e) (hes : c.AllRetraced es) : c.AllRetraced (e :: es) := by
  intro scope input ns p p'' h hin hrun t ht
  rw [exprs] at hrun
  obtain ⟨n, p₁, hfirst, hrun⟩ := run_bind_inv hrun
  obtain ⟨ms, p₂, hrest, hrun⟩ := run_bind_inv hrun
  cases hrun
  obtain ⟨hkept₁, h₁, -⟩ := (expr_sound c e h hin).ran hfirst
  obtain ⟨hkept₂, -, -⟩ := (exprs_sound c es h₁ (hkept₁.has hin)).ran hrest
  exact Option.bind_eq_some_iff.mpr ⟨n, he h hin hfirst (hkept₂.trans ht),
    Option.map_eq_some_iff.mpr ⟨ms, hes h₁ (hkept₁.has hin) hrest ht, rfl⟩⟩

end

mutual

/-- A formula that compiles is retraced from every later store. -/
theorem expr_retraced (c : Compiler) : ∀ e : Expr, c.Retraced e
  | .atom pos name arg => atom_retraced pos name arg
  | .seq pos left right => seq_retraced pos (expr_retraced c left) (expr_retraced c right)
  | .par pos children => par_retraced pos (exprs_retraced c children)
  | .diamond pos direction phi sigma => diamond_retraced pos direction phi sigma
  | .var pos name => var_retraced pos name
  | .fix pos least v base body => fix_retraced pos least v base (expr_retraced c body)
  | .hole => fun _ _ _ _ _ _ _ hrun => by
    rw [expr] at hrun
    cases hrun

/-- Formulas that compile are retraced from every later store. -/
theorem exprs_retraced (c : Compiler) : ∀ es : List Expr, c.AllRetraced es
  | [] => nil_retraced
  | e :: es => cons_retraced (expr_retraced c e) (exprs_retraced c es)

end

/-! ## Walks that are retraced repeat -/

/-- A walk gives a result and changes nothing but the number of nodes that were found again. -/
def Repeats {α : Type} (act : Build α) (p : Progress) (a : α) : Prop :=
  ∃ r, act.run p = (.ok a, { p with reused := r })

section

variable {α β : Type} {p : Progress}

theorem Repeats.pure (a : α) (p : Progress) : Repeats (Pure.pure a) p a :=
  ⟨p.reused, rfl⟩

theorem Repeats.lift {x : Except Failure α} {a : α} (h : x = .ok a) (p : Progress) : Repeats (liftM x) p a :=
  ⟨p.reused, (run_lift x p).trans (by rw [h])⟩

theorem Repeats.intern {key : Bytes} {make : Except Failure Node} {n : Node} (h : p.store.find? key = some n) :
    Repeats (Compiler.intern key make) p n :=
  ⟨p.reused + 1, intern_found h⟩

theorem Repeats.bind {act : Build α} {f : α → Build β} {a : α} {b : β} (h : Repeats act p a)
    (hf : ∀ r, Repeats (f a) { p with reused := r } b) : Repeats (act >>= f) p b := by
  obtain ⟨r, hrun⟩ := h
  obtain ⟨r', hrun'⟩ := hf r
  exact ⟨r', (run_bind_ok hrun).trans hrun'⟩

end

mutual

/-- Compiling a formula that is retraced from the store gives the node, and makes none. -/
theorem expr_repeats {c : Compiler} : ∀ (e : Expr) {scope : List Binding} {input n : Node} {p : Progress},
    retrace c.settings p.store scope.length (names scope) e input = some n → Repeats (c.expr scope e input) p n
  | .atom _ name arg, scope, input, n, p, h => by
    rw [retrace] at h
    rw [expr]
    exact Repeats.intern h
  | .seq _ left right, scope, input, n, p, h => by
    rw [retrace] at h
    obtain ⟨l, hl, hr⟩ := Option.bind_eq_some_iff.mp h
    rw [expr]
    exact (expr_repeats left hl).bind fun _ => expr_repeats right hr
  | .par _ children, scope, input, n, p, h => by
    rw [retrace] at h
    split at h
    · cases h
    · rename_i hne
      obtain ⟨ns, hns, hn⟩ := Option.bind_eq_some_iff.mp h
      rw [expr, if_neg hne]
      exact (exprs_repeat children hns).bind fun _ => Repeats.intern hn
  | .diamond _ direction phi sigma, scope, input, n, p, h => by
    rw [retrace] at h
    split at h
    · rename_i hadj
      rw [expr]
      simp only [hadj, Bool.not_true, Bool.false_eq_true, if_false]
      exact Repeats.intern h
    · cases h
  | .var _ name, scope, input, n, p, h => by
    rw [retrace, names] at h
    rw [expr]
    cases hlookup : lookup scope name with
    | none =>
      rw [hlookup] at h
      cases h
    | some b =>
      rw [hlookup] at h
      exact Repeats.intern h
  | .fix _ least v base body, scope, input, n, p, h => by
    rw [retrace] at h
    obtain ⟨b, hb, h⟩ := Option.bind_eq_some_iff.mp h
    obtain ⟨m, hm, h⟩ := Option.bind_eq_some_iff.mp h
    obtain ⟨init, hbase⟩ := startBase?_eq_some.mp hb
    rw [expr]
    have hbody : retrace c.settings p.store (⟨v, base, variableKey scope.length base, b⟩ :: scope : List Binding).length
        (names (⟨v, base, variableKey scope.length base, b⟩ :: scope)) body input = some m := by
      rw [names_cons]
      exact hm
    split at h
    · cases h
    · rename_i hwidth
      have hcheck : checkBodyWidth ⟨v, base, variableKey scope.length base, b⟩ m = .ok () := checkBodyWidth_ok.mpr hwidth
      refine (Repeats.lift hbase p).bind fun r => (expr_repeats body (p := { p with reused := r }) hbody).bind fun r => ?_
      exact (Repeats.lift hcheck _).bind fun _ => Repeats.intern h
  | .hole, _, _, _, _, h => by
    rw [retrace] at h
    cases h

/-- Compiling formulas that are retraced from the store gives the nodes, and makes none. -/
theorem exprs_repeat {c : Compiler} : ∀ (es : List Expr) {scope : List Binding} {input : Node} {ns : List Node} {p : Progress},
    retraceAll c.settings p.store scope.length (names scope) es input = some ns → Repeats (c.exprs scope es input) p ns
  | [], scope, input, ns, p, h => by
    rw [retraceAll] at h
    cases h
    rw [exprs]
    exact Repeats.pure [] p
  | e :: es, scope, input, ns, p, h => by
    rw [retraceAll] at h
    obtain ⟨n, hn, h⟩ := Option.bind_eq_some_iff.mp h
    obtain ⟨ms, hms, rfl⟩ := Option.map_eq_some_iff.mp h
    rw [exprs]
    refine (expr_repeats e hn).bind fun r => (exprs_repeat es (p := { p with reused := r }) hms).bind fun _ => ?_
    exact Repeats.pure (n :: ms) _

end

/-! ## Variants are retraced alike -/

section

variable {settings : Settings} {s : Store}

mutual

/-- The place of a formula does not count. -/
theorem retrace_unplaced : ∀ (e : Expr) (depth : Nat) (σ : Names),
    retrace settings s depth σ e.unplaced = retrace settings s depth σ e
  | .atom .., _, _ => rfl
  | .seq _ left right, depth, σ => by
    funext input
    rw [Expr.unplaced, retrace, retrace, retrace_unplaced left, retrace_unplaced right]
  | .par _ children, depth, σ => by
    funext input
    have hempty : (Expr.unplacedAll children).isEmpty = children.isEmpty := by cases children <;> rfl
    rw [Expr.unplaced, retrace, retrace, retraceAll_unplaced children, hempty]
  | .diamond .., _, _ => rfl
  | .fix _ least v base body, depth, σ => by
    funext input
    rw [Expr.unplaced, retrace, retrace, retrace_unplaced body]
  | .var .., _, _ => rfl
  | .hole, _, _ => rfl

theorem retraceAll_unplaced : ∀ (es : List Expr) (depth : Nat) (σ : Names),
    retraceAll settings s depth σ (Expr.unplacedAll es) = retraceAll settings s depth σ es
  | [], _, _ => rfl
  | e :: es, depth, σ => by
    funext input
    rw [Expr.unplacedAll, retraceAll, retraceAll, retrace_unplaced e, retraceAll_unplaced es]

end

/-- Names that stand for the same variables where `w` is written for `v`, as far as a variable is free. -/
def Agree (free : Bytes → Prop) (v w : Bytes) (σ σ' : Names) : Prop :=
  ∀ x, free x → σ' (if x = v then w else x) = σ x

/-- Below one more binder, which does not catch what is renamed. -/
theorem Agree.bind {v w u key : Bytes} {body : Expr} {σ σ' : Names} (hu : u ≠ v) (hcatch : ¬(u = w ∧ body.Free v))
    (h : Agree (fun x => u ≠ x ∧ body.Free x) v w σ σ') : Agree (fun x => body.Free x) v w (σ.bind u key) (σ'.bind u key) := by
  intro x hx
  rw [Names.bind, Names.bind]
  by_cases hxv : x = v
  · subst hxv
    have hw : w ≠ u := fun hw => hcatch ⟨hw.symm, hx⟩
    have hσ := h x ⟨hu, hx⟩
    rw [if_pos rfl] at hσ ⊢
    rw [if_neg hw, if_neg (Ne.symm hu), hσ]
  · rw [if_neg hxv]
    by_cases hxu : x = u
    · rw [if_pos hxu, if_pos hxu]
    · have hσ := h x ⟨Ne.symm hxu, hx⟩
      rw [if_neg hxv] at hσ
      rw [if_neg hxu, if_neg hxu, hσ]

/-- Below a binder of the variable that is renamed, nothing is. -/
theorem Agree.shadow {v w : Bytes} (key : Bytes) {body : Expr} {σ σ' : Names}
    (h : Agree (fun x => v ≠ x ∧ body.Free x) v w σ σ') : Agree (fun x => body.Free x) v v (σ.bind v key) (σ'.bind v key) := by
  intro x hx
  rw [Names.bind, Names.bind]
  by_cases hxv : x = v
  · rw [if_pos hxv, if_pos rfl, if_pos hxv]
  · have hσ := h x ⟨Ne.symm hxv, hx⟩
    rw [if_neg hxv] at hσ
    rw [if_neg hxv, if_neg hxv, if_neg hxv, hσ]

mutual

/-- A formula in which a free variable is renamed is retraced alike, where the new name stands for what the old one stood for. -/
theorem retrace_renamed : ∀ (e : Expr) (depth : Nat) {v w : Bytes} {σ σ' : Names}, Agree (fun x => e.Free x) v w σ σ' →
    ¬e.Captures v w → retrace settings s depth σ' (e.renamed v w) = retrace settings s depth σ e
  | .atom .., _, _, _, _, _, _, _ => rfl
  | .seq _ left right, depth, v, w, σ, σ', h, hcap => by
    rw [Expr.Captures, not_or] at hcap
    have hleft := retrace_renamed left depth (fun x hx => h x (.inl hx)) hcap.1
    have hright := retrace_renamed right depth (fun x hx => h x (.inr hx)) hcap.2
    funext input
    rw [Expr.renamed, retrace, retrace, hleft, hright]
  | .par _ children, depth, v, w, σ, σ', h, hcap => by
    have hempty : (Expr.renamedAll v w children).isEmpty = children.isEmpty := by cases children <;> rfl
    funext input
    rw [Expr.renamed, retrace, retrace, retraceAll_renamed children depth h hcap, hempty]
  | .diamond .., _, _, _, _, _, _, _ => rfl
  | .fix _ least u base body, depth, v, w, σ, σ', h, hcap => by
    rw [Expr.Captures] at hcap
    have hbody : retrace settings s (depth + 1) (σ'.bind u (variableKey depth base)) (if u = v then body else body.renamed v w) =
        retrace settings s (depth + 1) (σ.bind u (variableKey depth base)) body := by
      by_cases hu : u = v
      · subst hu
        have hshadow := retrace_renamed body (depth + 1) (Agree.shadow (variableKey depth base) h) (Expr.not_captures_self u body)
        rw [if_pos rfl]
        rwa [Expr.renamed_self] at hshadow
      · rw [if_neg hu]
        have hcatch : ¬(u = w ∧ body.Free v) := fun hcatch => hcap ⟨hu, .inl hcatch⟩
        exact retrace_renamed body (depth + 1) (Agree.bind hu hcatch h) fun hcap' => hcap ⟨hu, .inr hcap'⟩
    funext input
    rw [Expr.renamed, retrace, retrace, hbody]
  | .var _ name, depth, v, w, σ, σ', h, _ => by
    funext input
    rw [Expr.renamed, retrace, retrace, h name rfl]
  | .hole, _, _, _, _, _, _, _ => rfl

theorem retraceAll_renamed : ∀ (es : List Expr) (depth : Nat) {v w : Bytes} {σ σ' : Names},
    Agree (fun x => Expr.AnyFree x es) v w σ σ' → ¬Expr.AnyCaptures v w es →
      retraceAll settings s depth σ' (Expr.renamedAll v w es) = retraceAll settings s depth σ es
  | [], _, _, _, _, _, _, _ => rfl
  | e :: es, depth, v, w, σ, σ', h, hcap => by
    rw [Expr.AnyCaptures, not_or] at hcap
    have hfirst := retrace_renamed e depth (fun x hx => h x (.inl hx)) hcap.1
    have hrest := retraceAll_renamed es depth (fun x hx => h x (.inr hx)) hcap.2
    funext input
    rw [Expr.renamedAll, retraceAll, retraceAll, hfirst, hrest]

end

/-- A bound variable under another name is retraced alike. -/
theorem retrace_fix_renamed {p : Position} {least : Bool} {v w base : Bytes} {body : Expr} (hfree : ¬body.Free w)
    (hcap : ¬body.Captures v w) (depth : Nat) (σ : Names) :
    retrace settings s depth σ (.fix p least w base (body.renamed v w)) = retrace settings s depth σ (.fix p least v base body) := by
  have hagree : Agree (fun x => body.Free x) v w (σ.bind v (variableKey depth base)) (σ.bind w (variableKey depth base)) := by
    intro x hx
    rw [Names.bind, Names.bind]
    by_cases hxv : x = v
    · rw [if_pos hxv, if_pos rfl, if_pos hxv]
    · have hxw : x ≠ w := fun hxw => hfree (hxw ▸ hx)
      rw [if_neg hxv, if_neg hxw, if_neg hxv]
  funext input
  rw [retrace, retrace, retrace_renamed body (depth + 1) hagree hcap]

/-- Sequences are retraced alike from the left and from the right. -/
theorem retrace_assoc {p q p' q' : Position} {f g h : Expr} (depth : Nat) (σ : Names) :
    retrace settings s depth σ (.seq p' f (.seq q' g h)) = retrace settings s depth σ (.seq p (.seq q f g) h) := by
  have hright : retrace settings s depth σ (.seq q' g h) =
      fun m => (retrace settings s depth σ g m).bind (retrace settings s depth σ h) := by
    funext m
    rw [retrace]
  funext input
  rw [retrace, hright, retrace, retrace, Option.bind_assoc]

theorem retraceAll_child {e e' : Expr} {depth : Nat} {σ : Names}
    (h : retrace settings s depth σ e' = retrace settings s depth σ e) (before after : List Expr) :
    retraceAll settings s depth σ (before ++ e' :: after) = retraceAll settings s depth σ (before ++ e :: after) := by
  funext input
  induction before with
  | nil => rw [List.nil_append, List.nil_append, retraceAll, retraceAll, h]
  | cons b before ih => rw [List.cons_append, List.cons_append, retraceAll, retraceAll, ih]

/-- One change that keeps what a formula says keeps what is retraced for it. -/
theorem retrace_rewrites {e e' : Expr} (h : Rewrites e e') (depth : Nat) (σ : Names) :
    retrace settings s depth σ e' = retrace settings s depth σ e := by
  induction h generalizing depth σ with
  | place h => rw [← retrace_unplaced, h, retrace_unplaced]
  | rename w hfree hcap => exact retrace_fix_renamed hfree hcap depth σ
  | right => exact retrace_assoc depth σ
  | left => exact (retrace_assoc depth σ).symm
  | first _ ih =>
    funext input
    rw [retrace, retrace, ih]
  | second _ ih =>
    funext input
    rw [retrace, retrace, ih]
  | @child p before after e e' _ ih =>
    have hempty : (before ++ e' :: after).isEmpty = (before ++ e :: after).isEmpty := by cases before <;> rfl
    funext input
    rw [retrace, retrace, retraceAll_child (ih depth σ), hempty]
  | body _ ih =>
    funext input
    rw [retrace, retrace, ih]

/-- Variants are retraced alike. -/
theorem retrace_variant {e e' : Expr} (h : Variant e e') (depth : Nat) (σ : Names) :
    retrace settings s depth σ e' = retrace settings s depth σ e := by
  induction h with
  | refl => rfl
  | tail _ hstep ih => rw [retrace_rewrites hstep, ih]

end

mutual

/-- No part is missing in a formula that is retraced. -/
theorem hasHole_of_retrace {settings : Settings} {s : Store} : ∀ (e : Expr) {depth : Nat} {σ : Names} {input n : Node},
    retrace settings s depth σ e input = some n → e.hasHole = false
  | .atom .., _, _, _, _, _ => rfl
  | .seq _ left right, _, _, _, _, h => by
    rw [retrace] at h
    obtain ⟨l, hl, hr⟩ := Option.bind_eq_some_iff.mp h
    rw [Expr.hasHole, hasHole_of_retrace left hl, hasHole_of_retrace right hr, Bool.or_false]
  | .par _ children, _, _, _, _, h => by
    rw [retrace] at h
    split at h
    · cases h
    · obtain ⟨ns, hns, -⟩ := Option.bind_eq_some_iff.mp h
      rw [Expr.hasHole, anyHole_of_retraceAll children hns]
  | .diamond .., _, _, _, _, _ => rfl
  | .fix _ _ _ _ body, _, _, _, _, h => by
    rw [retrace] at h
    obtain ⟨_, -, h⟩ := Option.bind_eq_some_iff.mp h
    obtain ⟨m, hm, -⟩ := Option.bind_eq_some_iff.mp h
    rw [Expr.hasHole, hasHole_of_retrace body hm]
  | .var .., _, _, _, _, _ => rfl
  | .hole, _, _, _, _, h => by
    rw [retrace] at h
    cases h

theorem anyHole_of_retraceAll {settings : Settings} {s : Store} : ∀ (es : List Expr) {depth : Nat} {σ : Names} {input : Node}
    {ns : List Node}, retraceAll settings s depth σ es input = some ns → Expr.anyHole es = false
  | [], _, _, _, _, _ => rfl
  | e :: es, _, _, _, _, h => by
    rw [retraceAll] at h
    obtain ⟨n, hn, h⟩ := Option.bind_eq_some_iff.mp h
    obtain ⟨ms, hms, -⟩ := Option.map_eq_some_iff.mp h
    rw [Expr.anyHole, hasHole_of_retrace e hn, anyHole_of_retraceAll es hms, Bool.or_false]

end

/-! ## Requests -/

/-- The formula that a request asks for, if its text has a parse. -/
def Request.expr? : Request → Option Expr
  | .text _ source => (parse source).toOption
  | .formula _ e => some e

/-- Whether the caller of a request has given up. -/
def Request.canceled : Request → Bool
  | .text canceled _ => canceled
  | .formula canceled _ => canceled

/-- An outcome of a call that made no node: the compiler is as before, and no report counts a node that was made. -/
structure MakesNoNode (c : Compiler) (o : Outcome) : Prop where
  compiler_eq : o.compiler = c
  created_eq : ∀ {formula mode created reused layers failure},
    Event.compileFinish formula mode created reused layers failure ∈ o.events → created = 0

section

variable {c : Compiler} {r : Request} {e : Expr} {m : Model}

/-- A request compiles its formula under some text, unless a part of the formula is missing. -/
theorem Request.on_cases (h : r.expr? = some e) (c : Compiler) :
    (∃ formula, r.on c = c.compileAs r.canceled formula e) ∨ e.hasHole = true ∧ r.on c = ⟨.error .aborted, c, []⟩ := by
  cases r with
  | text canceled source =>
    refine .inl ⟨source, ?_⟩
    rw [Request.on, compile]
    cases hparse : parse source with
    | error f =>
      rw [Request.expr?, hparse] at h
      cases h
    | ok e' =>
      rw [Request.expr?, hparse] at h
      cases h
      rfl
  | formula canceled e' =>
    cases h
    rw [Request.on, compileExpr]
    split
    · rename_i hhole
      exact .inr ⟨hhole, rfl⟩
    · exact .inl ⟨e.key, rfl⟩

/-- A compilation whose walk makes no node returns the model of a node that was there. -/
theorem compileAs_repeats {formula : Bytes} {n : Node} (h : Repeats (c.expr [] e c.input) { store := c.store } n) :
    (c.compileAs false formula e).result = .ok (Model.ofTable formula c.settings.input c.store.node? c.store.size n.id) ∧
      c.MakesNoNode (c.compileAs false formula e) := by
  obtain ⟨reused, hrun⟩ := h
  rw [compileAs, if_neg (by simp), hrun]
  refine ⟨rfl, rfl, fun hmem => ?_⟩
  rcases List.mem_cons.mp hmem with hmem | hmem
  · cases hmem
  · cases List.mem_singleton.mp hmem
    rfl

/-- What a request that succeeds returns is retraced after any other requests, from a store that keeps the nodes that the model is
made of. -/
theorem Intact.retraced (h : c.Intact) (hr : r.expr? = some e) (hm : (r.on c).result = .ok m) (later : List Request) :
    ∃ formula, ∃ s : Store, ∃ out, m = Model.ofTable formula c.settings.input s.node? s.size out.id ∧ s.Coherent ∧ s.Has out ∧
      s.Kept (c.served (r :: later)).store ∧ retrace c.settings (c.served (r :: later)).store 0 (names []) e c.input = some out := by
  obtain ⟨formula, hon⟩ := (Request.on_cases hr c).resolve_right fun ⟨_, hon⟩ => by
    rw [hon] at hm
    cases hm
  rw [hon] at hm
  obtain ⟨out, p, hrun, hcompiler, hmodel⟩ := compileAs_ok hm
  obtain ⟨-, hcoherent, hout⟩ := (expr_sound c e h.coherent h.has_input).ran hrun
  have hkept : p.store.Kept (c.served (r :: later)).store := by
    obtain ⟨hintact, -⟩ := r.on_keeps h
    have hstore : (r.on c).compiler.store = p.store := by rw [hon, hcompiler]
    exact hstore ▸ (hintact.served later).2.kept
  exact ⟨formula, p.store, out, hmodel, hcoherent, hout, hkept, expr_retraced c e h.coherent h.has_input hrun hkept⟩

/-- A request for a formula that is retraced returns the model of the node, and makes none. -/
theorem Request.on_retraced (hr : r.expr? = some e) (hlive : r.canceled = false) {out : Node}
    (h : retrace c.settings c.store 0 (names []) e c.input = some out) :
    ∃ formula, (r.on c).result = .ok (Model.ofTable formula c.settings.input c.store.node? c.store.size out.id) ∧
      c.MakesNoNode (r.on c) := by
  obtain ⟨formula, hon⟩ := (Request.on_cases hr c).resolve_right fun ⟨hhole, _⟩ => by
    rw [hasHole_of_retrace e h] at hhole
    cases hhole
  have hrepeats : Repeats (c.expr [] e c.input) { store := c.store } out := expr_repeats e h
  rw [hon, hlive]
  exact ⟨formula, compileAs_repeats hrepeats⟩

end

end Compiler

open Compiler

/-- A formula that compiled is found again in every variant: after any other requests, a request for the variant succeeds and makes no
node, and its model has the same output node and takes along the same nodes. -/
theorem variant_compiles_to_same_node {ops : Registries} {settings : Settings} {c₀ : Compiler}
    (h₀ : Compiler.new ops settings = .ok c₀) (earlier between : List Request) {r r' : Request} {e e' : Expr} {m : Model}
    (hr : r.expr? = some e) (hm : (r.on (c₀.served earlier)).result = .ok m) (hvariant : Variant e e') (hr' : r'.expr? = some e')
    (hlive : r'.canceled = false) :
    MakesNoNode (c₀.served (earlier ++ r :: between)) (r'.on (c₀.served (earlier ++ r :: between))) ∧
      ∃ m' n, (r'.on (c₀.served (earlier ++ r :: between))).result = .ok m' ∧ m'.output = m.output ∧ m'.nodes = m.nodes ∧
        m.node? m.output = some n ∧ m'.node? m'.output = some n := by
  obtain ⟨hintact, -⟩ := (intact_new h₀).served earlier
  rw [served_append]
  generalize c₀.served earlier = c₁ at hm hintact
  obtain ⟨formula, s, out, rfl, hcoherent, hout, hkept, hretrace⟩ := hintact.retraced hr hm between
  obtain ⟨-, honward⟩ := hintact.served (r :: between)
  generalize c₁.served (r :: between) = c₂ at honward hkept hretrace
  rw [← retrace_variant hvariant, ← honward.settings_eq, ← honward.input_eq hintact] at hretrace
  obtain ⟨formula', hresult, hnone⟩ := Request.on_retraced hr' hlive hretrace
  have hnodes := hkept.reached_eq hcoherent hout
  obtain ⟨n, hn⟩ := (Model.ofTable_holds hcoherent.ordered formula c₁.settings.input
    (Nat.le_of_lt (hcoherent.dep ⟨out, hout⟩).1) ⟨out, hout⟩).output_some
  refine ⟨hnone, _, n, hresult, rfl, hnodes, hn, ?_⟩
  rw [← hn]
  exact congrArg (List.find? fun n => n.id == out.id) hnodes

namespace Sample

/-- A bound variable, then a diamond. -/
def step (v : String) : Expr :=
  .seq Position.none (.var Position.none (Bytes.ofString v)) (.diamond Position.none .forward none (Bytes.ofString "or"))

/-- The formula `mu v,b.((v;|>or);a)`. -/
def leftward (v : String) : Expr :=
  .fix Position.none true (Bytes.ofString v) (Bytes.ofString "b")
    (.seq Position.none (step v) (.atom Position.none (Bytes.ofString "a") none))

/-- The formula `mu v,b.(v;(|>or;a))`. -/
def rightward (v : String) : Expr :=
  .fix Position.none true (Bytes.ofString v) (Bytes.ofString "b")
    (.seq Position.none (.var Position.none (Bytes.ofString v)) (.seq Position.none
      (.diamond Position.none .forward none (Bytes.ofString "or")) (.atom Position.none (Bytes.ofString "a") none)))

theorem rightward_variant : Variant (leftward "X") (rightward "Y") := by
  have hne : Bytes.ofString "X" ≠ Bytes.ofString "Y" := by decide
  have hfree : ¬(Expr.seq Position.none (step "X") (.atom Position.none (Bytes.ofString "a") none)).Free (Bytes.ofString "Y") := by
    simpa only [step, Expr.Free, or_false] using hne
  have hrename : Rewrites (leftward "X") (leftward "Y") := .rename (Bytes.ofString "Y") hfree (by simp [step, Expr.Captures])
  exact .tail (.single hrename) (.body .right)

end Sample

/-- After `mu X,b.((X;|>or);a)`, and another formula, `mu Y,b.(Y;(|>or;a))` makes no node and has the same output. -/
theorem variant_compiles_to_same_node_sample : ∃ m m' n,
    ((Request.formula false (Sample.leftward "X")).on (Sample.newCompiler.served Sample.requests)).result = .ok m ∧
      ((Request.formula false (Sample.rightward "Y")).on (Sample.newCompiler.served (Sample.requests ++
        [.formula false (Sample.leftward "X"), .text false (Bytes.ofString "nu Y,r.(Y;a)")]))).result = .ok m' ∧
      m'.output = m.output ∧ m.node? m.output = some n ∧ m'.node? m'.output = some n := by
  have hok : ((Request.formula false (Sample.leftward "X")).on (Sample.newCompiler.served Sample.requests)).result.isOk = true := by
    decide +kernel
  obtain ⟨m, hm⟩ := exists_of_isOk hok
  have hr' : (Request.formula false (Sample.rightward "Y")).expr? = some (Sample.rightward "Y") := rfl
  obtain ⟨-, m', n, hresult, houtput, -, hn, hn'⟩ := variant_compiles_to_same_node Sample.newCompiler_new Sample.requests
    [Request.text false (Bytes.ofString "nu Y,r.(Y;a)")] rfl hm Sample.rightward_variant hr' rfl
  exact ⟨m, m', n, hm, hresult, houtput, hn, hn'⟩

end ModalGraph
