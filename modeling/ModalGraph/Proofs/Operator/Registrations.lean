import Mathlib.Data.List.Induction
import ModalGraph.Operator.Registry
import ModalGraph.Proofs.Step
import ModalGraph.Proofs.Text.Order

/-!
# Registries over whole runs

A registry starts without names. Calls give constructors to its names and clone it, and its clones are given more names and are cloned
in turn (`Registry.run`). What a registry answers for a name is decided by the last call that gave the name a constructor, in this
registry or in the one it was cloned from, before that (`Registry.LastGiven`): a name that was made an alias keeps the operator that
its key named at that time, a call that fails counts for nothing, and calls on other registries do not matter
(`Registry.answers_last_given`).

What one call changes is told once (`getElem?_step`); that a registry holds exactly what its names were last given is the invariant of
a run (`find?_iff`).
-/

namespace ModalGraph.Registry

variable {α : Type}

/-! ## Calls -/

/-- How a name is given a constructor: by an operator, by a constructor, by what is offered, or by a key that names an operator. -/
inductive Gift (α : Type) where
  | operator (op : α)
  | constructor (make : Constructor α)
  | offer (o : Offer α)
  | synonym (key : Bytes)

/-- The registry in which a name has been given a constructor. -/
def Gift.on (g : Gift α) (r : Registry α) (name : Bytes) : Except Failure (Registry α) :=
  match g with
  | operator op => .ok (r.register name op)
  | constructor make => .ok (r.insert name make)
  | offer o => r.add name o
  | synonym key => r.addAlias name key

/-- A call on one of several registries, which have the numbers from 0 on in the order in which they were made. -/
inductive Call (α : Type) where
  | enter (k : Nat) (name : Bytes) (gift : Gift α)
  | clone (k : Nat)

namespace Call

/-- The registries after a call, or why it fails. There is nothing to call where there is no registry. -/
def result (rs : List (Registry α)) : Call α → Except Failure (List (Registry α))
  | enter k name gift =>
    match rs[k]? with
    | none => .error .aborted
    | some r => do return rs.set k (← gift.on r name)
  | clone k =>
    match rs[k]? with
    | none => .error .aborted
    | some r => .ok (rs ++ [r])

/-- The registries after a call that may fail. -/
def step (rs : List (Registry α)) (c : Call α) : List (Registry α) :=
  match c.result rs with
  | .ok rs' => rs'
  | .error _ => rs

/-- The registry that a call gives a name in. Cloning a registry gives it none. -/
def target? : Call α → Option Nat
  | enter k _ _ => some k
  | clone _ => none

end Call

/-- The registries after some calls, the first of which finds one registry without names. -/
def run (role : Role) (cs : List (Call α)) : List (Registry α) :=
  cs.foldl Call.step [.empty role]

/-! ## What decides -/

/-- The constructor that a name gets in a registry. A key gives the operator that it names there and then. -/
inductive Gift.Gives (r : Registry α) : Gift α → Constructor α → Prop where
  | operator (op : α) : Gives r (.operator op) fun _ => .ok op
  | constructor (make : Constructor α) : Gives r (.constructor make) make
  | offeredOperator (op : α) : Gives r (.offer (.operator op)) fun _ => .ok op
  | offeredConstructor (make : Constructor α) : Gives r (.offer (.constructor make)) make
  | synonym {key : Bytes} {op : α} : r.resolve key = .ok op → Gives r (.synonym key) fun _ => .ok op

/-- A call gives a name a constructor in registry `k`. -/
def Call.Enters (rs : List (Registry α)) (k : Nat) (name : Bytes) (c : Call α) : Prop :=
  ∃ gift r make, c = .enter k name gift ∧ rs[k]? = some r ∧ gift.Gives r make

/-- The constructor that a name was last given after some calls, in registry `k` or in its original before it was cloned. -/
inductive LastGiven (role : Role) : List (Call α) → Nat → Bytes → Constructor α → Prop where
  /-- The last call gives it. -/
  | entered {cs : List (Call α)} {k : Nat} {name : Bytes} {gift : Gift α} {r : Registry α} {make : Constructor α} :
      (run role cs)[k]? = some r → gift.Gives r make → LastGiven role (cs ++ [.enter k name gift]) k name make
  /-- An earlier call gave it, and the last one does not give the name another one. -/
  | kept {cs : List (Call α)} {c : Call α} {k : Nat} {name : Bytes} {make : Constructor α} :
      LastGiven role cs k name make → ¬c.Enters (run role cs) k name → LastGiven role (cs ++ [c]) k name make
  /-- The last call makes the registry, a clone of one in which the name was given it. -/
  | cloned {cs : List (Call α)} {k : Nat} {name : Bytes} {make : Constructor α} :
      LastGiven role cs k name make → LastGiven role (cs ++ [.clone k]) (run role cs).length name make

/-- None of several calls gives a name a constructor in registry `k`. -/
def Quiet (k : Nat) (name : Bytes) : List (Registry α) → List (Call α) → Prop
  | _, [] => True
  | rs, c :: cs => ¬c.Enters rs k name ∧ Quiet k name (c.step rs) cs

/-- What a registry answers for a name with an argument, asked for both or for a key that is taken apart so. -/
def Answers (r : Registry α) (name : Bytes) (arg : Argument) (x : Except Failure α) : Prop :=
  r.get name arg = x ∧ ∀ key, parseKey key = (name, arg) → r.resolve key = x

/-! ## One registry -/

namespace RegistrationsAux

theorem lookup_filter_ne {name n : Bytes} (h : n ≠ name) (entries : List (Bytes × Constructor α)) :
    (entries.filter fun e => e.1 != name).lookup n = entries.lookup n := by
  induction entries with
  | nil => rfl
  | cons e entries ih =>
    by_cases he : e.1 = name
    · have hn : (n == e.1) = false := by simpa [he] using h
      rw [List.filter_cons_of_neg (by simpa using he), ih, List.lookup_cons, hn]
    · rw [List.filter_cons_of_pos (by simpa using he), List.lookup_cons, List.lookup_cons, ih]

/-- A name that is given a constructor has this one, and the others keep theirs. -/
theorem find?_insert (r : Registry α) (name : Bytes) (make : Constructor α) (n : Bytes) :
    (r.insert name make).find? n = if n = name then some make else r.find? n := by
  unfold find? insert
  rw [List.lookup_cons]
  by_cases h : n = name
  · rw [if_pos h, h, beq_self_eq_true]
  · rw [if_neg h, beq_false_of_ne h, lookup_filter_ne h]

/-- No name of a registry occurs twice. -/
def Distinct (r : Registry α) : Prop :=
  (r.entries.map Prod.fst).Nodup

theorem distinct_insert {r : Registry α} (h : Distinct r) (name : Bytes) (make : Constructor α) : Distinct (r.insert name make) := by
  refine List.nodup_cons.mpr ⟨?_, h.sublist (List.filter_sublist.map Prod.fst)⟩
  intro hmem
  obtain ⟨e, he, hname⟩ := List.mem_map.mp hmem
  simpa [hname] using (List.mem_filter.mp he).2

/-- The names of a registry are those that have a constructor. -/
theorem mem_names_iff (r : Registry α) (name : Bytes) : name ∈ r.names ↔ ∃ make, r.find? name = some make := by
  rw [names, List.mem_mergeSort, ← Option.isSome_iff_exists, find?, List.lookup_isSome_iff, List.mem_map]
  refine exists_congr fun e => and_congr_right fun _ => ?_
  rw [beq_iff_eq, eq_comm]

/-- What a registry gives for a name with an argument, it gives for every key that is taken apart into the two. -/
theorem answers_of_get {r : Registry α} {name : Bytes} {arg : Argument} {x : Except Failure α} (h : r.get name arg = x) :
    r.Answers name arg x :=
  ⟨h, fun key hkey => by rw [resolve, hkey, h]⟩

/-- A registry answers with the constructor of the name. -/
theorem answers_of_find? {r : Registry α} {name : Bytes} {make : Constructor α} (h : r.find? name = some make) (arg : Argument) :
    r.Answers name arg (inPlace s!"{r.role.name} operator {(name ++ argumentText arg).toText}" (make arg)) :=
  answers_of_get (by rw [get, h])

/-- A registry does not know a name without constructor. -/
theorem answers_of_find?_none {r : Registry α} {name : Bytes} (h : r.find? name = none) (arg : Argument) :
    r.Answers name arg (.error (.unknownOperator r.role.name (name ++ argumentText arg))) :=
  answers_of_get (by rw [get, h])

/-! ## One call -/

/-- A name that can be given something is given a constructor, and nothing else changes. -/
theorem on_ok_iff {g : Gift α} {r r' : Registry α} {name : Bytes} :
    g.on r name = .ok r' ↔ ∃ make, g.Gives r make ∧ r' = r.insert name make := by
  constructor
  · intro h
    cases g with
    | operator op => exact ⟨_, .operator op, (Except.ok.inj h).symm⟩
    | constructor make => exact ⟨_, .constructor make, (Except.ok.inj h).symm⟩
    | offer o =>
      cases o with
      | operator op => exact ⟨_, .offeredOperator op, (Except.ok.inj h).symm⟩
      | constructor make => exact ⟨_, .offeredConstructor make, (Except.ok.inj h).symm⟩
      | unfit typeName => cases h
    | synonym key =>
      obtain ⟨op, hop, h⟩ := bind_ok h
      exact ⟨_, .synonym hop, (Except.ok.inj h).symm⟩
  · rintro ⟨make, hgives, rfl⟩
    cases hgives with
    | operator op => rfl
    | constructor => rfl
    | offeredOperator op => rfl
    | offeredConstructor => rfl
    | synonym hop =>
      rw [Gift.on, addAlias, hop]
      rfl

variable {role : Role} {rs rs' : List (Registry α)} {c : Call α} {k : Nat} {r r' : Registry α} {name : Bytes}
  {make : Constructor α} {cs : List (Call α)}

theorem result_enter {gift : Gift α} (hr : rs[k]? = some r) (hgives : gift.Gives r make) :
    (Call.enter k name gift).result rs = .ok (rs.set k (r.insert name make)) := by
  rw [Call.result, hr]
  show (gift.on r name >>= fun x => pure (rs.set k x)) = _
  rw [on_ok_iff.mpr ⟨make, hgives, rfl⟩]
  rfl

/-- A call that gives a name a constructor succeeds. -/
theorem result_of_enters (h : c.Enters rs k name) : ∃ rs', c.result rs = .ok rs' := by
  obtain ⟨gift, r, make, rfl, hr, hgives⟩ := h
  exact ⟨_, result_enter hr hgives⟩

/-- What a call that succeeds makes of the registries. -/
theorem result_ok (h : c.result rs = .ok rs') :
    (∃ k name gift r make, c = .enter k name gift ∧ rs[k]? = some r ∧ gift.Gives r make ∧ rs' = rs.set k (r.insert name make)) ∨
      ∃ k r, c = .clone k ∧ rs[k]? = some r ∧ rs' = rs ++ [r] := by
  cases c with
  | enter k name gift =>
    rw [Call.result] at h
    split at h
    · cases h
    · rename_i r hr
      obtain ⟨r', hon, h⟩ := bind_ok h
      obtain ⟨make, hgives, rfl⟩ := on_ok_iff.mp hon
      exact .inl ⟨k, name, gift, r, make, rfl, hr, hgives, (Except.ok.inj h).symm⟩
  | clone k =>
    rw [Call.result] at h
    split at h
    · cases h
    · rename_i r hr
      exact .inr ⟨k, r, rfl, hr, (Except.ok.inj h).symm⟩

/-- What stands at a number after a call: a registry in which a name has been given a constructor, a new clone, or what stood there
before, in which the call gives no name anything. -/
theorem getElem?_step (h : (c.step rs)[k]? = some r') :
    (∃ name gift r make, c = .enter k name gift ∧ rs[k]? = some r ∧ gift.Gives r make ∧ r' = r.insert name make) ∨
      (∃ j, c = .clone j ∧ k = rs.length ∧ rs[j]? = some r') ∨ (rs[k]? = some r' ∧ ∀ name, ¬c.Enters rs k name) := by
  rw [Call.step] at h
  split at h
  · rename_i rs' hresult
    rcases result_ok hresult with ⟨j, name, gift, r, make, rfl, hr, hgives, rfl⟩ | ⟨j, r, rfl, hr, rfl⟩
    · by_cases hj : j = k
      · subst hj
        rw [List.getElem?_set_self (List.getElem?_eq_some_iff.mp hr).1] at h
        exact .inl ⟨name, gift, r, make, rfl, hr, hgives, (Option.some.inj h).symm⟩
      · rw [List.getElem?_set_ne hj] at h
        refine .inr (.inr ⟨h, ?_⟩)
        rintro n ⟨_, _, _, heq, -, -⟩
        cases heq
        exact hj rfl
    · rcases Nat.lt_or_ge k rs.length with hk | hk
      · rw [List.getElem?_append_left hk] at h
        exact .inr (.inr ⟨h, fun n hn => by obtain ⟨_, _, _, heq, -, -⟩ := hn; cases heq⟩)
      · rw [List.getElem?_append_right hk, List.getElem?_singleton] at h
        split at h
        · exact .inr (.inl ⟨j, rfl, by omega, hr.trans h⟩)
        · cases h
  · rename_i f hresult
    refine .inr (.inr ⟨h, fun n hn => ?_⟩)
    obtain ⟨rs', hok⟩ := result_of_enters hn
    rw [hok] at hresult
    cases hresult

theorem length_step (rs : List (Registry α)) (c : Call α) : rs.length ≤ (c.step rs).length := by
  rw [Call.step]
  split
  · rename_i rs' hresult
    rcases result_ok hresult with ⟨j, name, gift, r, make, -, -, -, rfl⟩ | ⟨j, r, -, -, rfl⟩
    · exact Nat.le_of_eq List.length_set.symm
    · simp
  · exact Nat.le_refl _

/-- A registry that is there is still there after a call. -/
theorem exists_step (hr : rs[k]? = some r) (c : Call α) : ∃ r', (c.step rs)[k]? = some r' :=
  ⟨_, List.getElem?_eq_getElem (Nat.lt_of_lt_of_le (List.getElem?_eq_some_iff.mp hr).1 (length_step rs c))⟩

/-- A call in another registry leaves a registry as it is. -/
theorem getElem?_step_other (hk : k < rs.length) (hc : c.target? ≠ some k) : (c.step rs)[k]? = rs[k]? := by
  obtain ⟨r, hr⟩ : ∃ r, rs[k]? = some r := ⟨_, List.getElem?_eq_getElem hk⟩
  obtain ⟨r', hr'⟩ := exists_step hr c
  rcases getElem?_step hr' with ⟨_, _, _, _, rfl, -⟩ | ⟨_, -, rfl, -⟩ | ⟨hsame, -⟩
  · exact absurd rfl hc
  · exact absurd hk (Nat.lt_irrefl _)
  · rw [hr', hsame]

/-! ## Runs -/

theorem run_snoc (role : Role) (cs : List (Call α)) (c : Call α) : run role (cs ++ [c]) = c.step (run role cs) := by
  rw [run, List.foldl_append]
  rfl

theorem run_append (role : Role) (cs later : List (Call α)) : run role (cs ++ later) = later.foldl Call.step (run role cs) :=
  List.foldl_append

/-- Every registry of a run is one of the same family, and none of its names occurs twice. -/
theorem run_distinct (h : (run role cs)[k]? = some r) : r.role = role ∧ Distinct r := by
  induction cs using List.reverseRecOn generalizing k r with
  | nil =>
    obtain rfl := List.mem_singleton.mp (List.mem_of_getElem? h)
    exact ⟨rfl, List.nodup_nil⟩
  | append_singleton cs c ih =>
    rw [run_snoc] at h
    rcases getElem?_step h with ⟨name, gift, r, make, -, hr, -, rfl⟩ | ⟨j, -, -, hj⟩ | ⟨hk, -⟩
    · obtain ⟨hrole, hdistinct⟩ := ih hr
      exact ⟨hrole, distinct_insert hdistinct name make⟩
    · exact ih hj
    · exact ih hk

/-- What a registry holds, its names have last been given. -/
theorem lastGiven_of_find? (h : (run role cs)[k]? = some r) (hfind : r.find? name = some make) : LastGiven role cs k name make := by
  induction cs using List.reverseRecOn generalizing k r with
  | nil =>
    obtain rfl := List.mem_singleton.mp (List.mem_of_getElem? h)
    cases hfind
  | append_singleton cs c ih =>
    rw [run_snoc] at h
    rcases getElem?_step h with ⟨n, gift, r, make', rfl, hr, hgives, rfl⟩ | ⟨j, rfl, rfl, hj⟩ | ⟨hk, hquiet⟩
    · rw [find?_insert] at hfind
      by_cases hname : name = n
      · subst hname
        rw [if_pos rfl] at hfind
        exact Option.some.inj hfind ▸ .entered hr hgives
      · rw [if_neg hname] at hfind
        refine .kept (ih hr hfind) ?_
        rintro ⟨_, _, _, heq, -, -⟩
        cases heq
        exact hname rfl
    · exact .cloned (ih hj hfind)
    · exact .kept (ih hk hfind) (hquiet name)

/-- What a name has last been given, its registry holds. -/
theorem find?_of_lastGiven (h : LastGiven role cs k name make) : ∃ r, (run role cs)[k]? = some r ∧ r.find? name = some make := by
  induction h with
  | @entered cs k name gift r make hr hgives =>
    refine ⟨r.insert name make, ?_, by rw [find?_insert, if_pos rfl]⟩
    rw [run_snoc, Call.step, result_enter hr hgives]
    exact List.getElem?_set_self (List.getElem?_eq_some_iff.mp hr).1
  | @kept cs c k name make _ hquiet ih =>
    obtain ⟨r, hr, hfind⟩ := ih
    obtain ⟨r', hr'⟩ := exists_step hr c
    rw [run_snoc]
    refine ⟨r', hr', ?_⟩
    rcases getElem?_step hr' with ⟨n, gift, r₁, make', rfl, hr₁, hgives, rfl⟩ | ⟨j, -, rfl, -⟩ | ⟨hk, -⟩
    · obtain rfl := Option.some.inj (hr.symm.trans hr₁)
      have hname : name ≠ n := by
        rintro rfl
        exact hquiet ⟨gift, r, make', rfl, hr, hgives⟩
      rw [find?_insert, if_neg hname, hfind]
    · exact absurd (List.getElem?_eq_some_iff.mp hr).1 (Nat.lt_irrefl _)
    · obtain rfl := Option.some.inj (hr.symm.trans hk)
      exact hfind
  | @cloned cs k name make _ ih =>
    obtain ⟨r, hr, hfind⟩ := ih
    refine ⟨r, ?_, hfind⟩
    have hresult : (Call.clone k).result (run role cs) = .ok (run role cs ++ [r]) := by rw [Call.result, hr]
    rw [run_snoc, Call.step, hresult]
    exact List.getElem?_concat_length

/-- A registry holds exactly what its names have last been given. -/
theorem find?_iff (h : (run role cs)[k]? = some r) (name : Bytes) (make : Constructor α) :
    r.find? name = some make ↔ LastGiven role cs k name make := by
  refine ⟨lastGiven_of_find? h, fun hlast => ?_⟩
  obtain ⟨r', hr', hfind⟩ := find?_of_lastGiven hlast
  obtain rfl := Option.some.inj (h.symm.trans hr')
  exact hfind

/-- What a name has been given lasts through calls that do not give it anything. -/
theorem lastGiven_append (h : LastGiven role cs k name make) {later : List (Call α)} (hquiet : Quiet k name (run role cs) later) :
    LastGiven role (cs ++ later) k name make := by
  induction later generalizing cs with
  | nil => rwa [List.append_nil]
  | cons c later ih =>
    rw [← List.singleton_append, ← List.append_assoc]
    exact ih (.kept h hquiet.1) (by rw [run_snoc]; exact hquiet.2)

/-- Calls that name something else are quiet. -/
theorem quiet_of_ne {later : List (Call α)} (h : ∀ gift, .enter k name gift ∉ later) : Quiet k name rs later := by
  induction later generalizing rs with
  | nil => trivial
  | cons c later ih =>
    refine ⟨?_, ih fun gift hmem => h gift (List.mem_cons_of_mem _ hmem)⟩
    rintro ⟨gift, _, _, rfl, -, -⟩
    exact h gift List.mem_cons_self

/-- Calls in other registries leave a registry as it is. -/
theorem getElem?_foldl_other {later : List (Call α)} (hk : k < rs.length) (h : ∀ c ∈ later, c.target? ≠ some k) :
    (later.foldl Call.step rs)[k]? = rs[k]? := by
  induction later generalizing rs with
  | nil => rfl
  | cons c later ih =>
    obtain ⟨hc, hlater⟩ := List.forall_mem_cons.mp h
    rw [List.foldl_cons, ih (Nat.lt_of_lt_of_le hk (length_step rs c)) hlater, getElem?_step_other hk hc]

end RegistrationsAux

open RegistrationsAux

/-- After any calls, every registry answers for a name with any argument by the constructor that the name was last given there or, before
it was cloned, in its original, and knows no name that was never given one; its names in strict order are exactly those that were. An
alias keeps the operator that its key named when it was made, whatever the key is given later. A call that fails gives no name anything
and changes nothing, and a registry stays as it is while calls go to its clones, to its original and to others. -/
theorem answers_last_given (role : Role) (cs : List (Call α)) :
    (∀ k r, (run role cs)[k]? = some r →
      (∀ name arg,
        (∃ make, LastGiven role cs k name make ∧
          r.Answers name arg (inPlace s!"{role.name} operator {(name ++ argumentText arg).toText}" (make arg))) ∨
        (∀ make, ¬LastGiven role cs k name make) ∧
          r.Answers name arg (.error (.unknownOperator role.name (name ++ argumentText arg)))) ∧
      (r.names.Pairwise Bytes.Before ∧ ∀ name, name ∈ r.names ↔ ∃ make, LastGiven role cs k name make) ∧
      ∀ name key op, r.resolve key = .ok op →
        ∀ later, Quiet k name (run role (cs ++ [.enter k name (.synonym key)])) later →
          ∃ r', (run role (cs ++ [.enter k name (.synonym key)] ++ later))[k]? = some r' ∧ ∀ arg, r'.Answers name arg (.ok op)) ∧
    (∀ c f, Call.result (run role cs) c = .error f →
      run role (cs ++ [c]) = run role cs ∧ ∀ k name, ¬c.Enters (run role cs) k name) ∧
    ∀ k < (run role cs).length, ∀ later, (∀ c ∈ later, Call.target? c ≠ some k) →
      (run role (cs ++ later))[k]? = (run role cs)[k]? := by
  refine ⟨fun k r hr => ?_, fun c f hfail => ?_, fun k hk later hlater => ?_⟩
  · obtain ⟨hrole, hdistinct⟩ := run_distinct hr
    subst hrole
    refine ⟨fun name arg => ?_, ⟨Bytes.mergeSort_strict hdistinct, fun name => ?_⟩, fun name key op hop later hquiet => ?_⟩
    · cases hfind : r.find? name with
      | some make => exact .inl ⟨make, (find?_iff hr name make).mp hfind, answers_of_find? hfind arg⟩
      | none =>
        refine .inr ⟨fun make hlast => ?_, answers_of_find?_none hfind arg⟩
        rw [(find?_iff hr name make).mpr hlast] at hfind
        cases hfind
    · rw [mem_names_iff]
      exact exists_congr fun make => find?_iff hr name make
    · have halias : LastGiven r.role (cs ++ [.enter k name (.synonym key)]) k name fun _ => .ok op := .entered hr (.synonym hop)
      obtain ⟨r', hr', hfind⟩ := find?_of_lastGiven (lastGiven_append halias hquiet)
      exact ⟨r', hr', fun arg => answers_of_find? hfind arg⟩
  · refine ⟨by rw [run_snoc, Call.step, hfail], fun k name henters => ?_⟩
    obtain ⟨rs', hok⟩ := result_of_enters henters
    rw [hok] at hfail
    cases hfail
  · rw [run_append]
    exact getElem?_foldl_other hk hlater

namespace Sample

/-- A registry with an operator, a constructor of operators, and another name for the operator. -/
def first : List (Call Nat) :=
  [.enter 0 (Bytes.ofString "all") (.operator 1),
    .enter 0 (Bytes.ofString "bit") (.constructor fun
      | none => .error (.argument .missingBit)
      | some a => .ok a.length),
    .enter 0 (Bytes.ofString "any") (.synonym (Bytes.ofString "all[x]"))]

/-- The first name is given another operator, the registry is cloned, and its clone takes the name back and is offered what is no
operator, after which an alias of an unknown key fails. -/
def later : List (Call Nat) :=
  [.enter 0 (Bytes.ofString "all") (.synonym (Bytes.ofString "bit[ab]")), .clone 0,
    .enter 1 (Bytes.ofString "all") (.synonym (Bytes.ofString "any")), .enter 1 (Bytes.ofString "bad") (.offer (.unfit "int")),
    .enter 1 (Bytes.ofString "last") (.synonym (Bytes.ofString "nope"))]

end Sample

/-- The alias keeps the operator 1 when its key is given the operator 2, and the calls on the clone, which takes the operator 1 back,
leave the registry as it is. -/
theorem answers_last_given_sample :
    (∃ r, (run .psi (Sample.first ++ Sample.later))[0]? = some r ∧
      (∀ arg, r.Answers (Bytes.ofString "any") arg (.ok 1)) ∧ r.resolve (Bytes.ofString "all") = .ok 2) ∧
    (∃ r, (run .psi (Sample.first ++ Sample.later))[1]? = some r ∧ r.resolve (Bytes.ofString "all") = .ok 1 ∧
      r.names = [Bytes.ofString "all", Bytes.ofString "any", Bytes.ofString "bit"]) ∧
    (run .psi (Sample.first ++ Sample.later))[0]? = (run .psi (Sample.first ++ Sample.later.take 2))[0]? := by
  obtain ⟨hregistries, -, -⟩ := answers_last_given .psi (Sample.first.take 2)
  obtain ⟨-, -, hother⟩ := answers_last_given .psi (Sample.first ++ Sample.later.take 2)
  obtain ⟨r₀, hr₀⟩ : ∃ r, (run .psi (Sample.first.take 2))[0]? = some r := ⟨_, rfl⟩
  have hop : r₀.resolve (Bytes.ofString "all[x]") = .ok 1 := by
    obtain rfl := Option.some.inj hr₀
    rfl
  have hquiet : Quiet 0 (Bytes.ofString "any") (run .psi Sample.first) Sample.later := by
    refine quiet_of_ne fun gift hmem => ?_
    have hne : Bytes.ofString "any" ≠ Bytes.ofString "all" := by decide +kernel
    simp [Sample.later, hne] at hmem
  obtain ⟨r, hr, hany⟩ := (hregistries 0 r₀ hr₀).2.2 (Bytes.ofString "any") _ 1 hop Sample.later hquiet
  obtain ⟨r', hr'⟩ : ∃ r, (run .psi (Sample.first ++ Sample.later))[1]? = some r := ⟨_, rfl⟩
  have hall : ((run .psi (Sample.first ++ Sample.later))[0]?.map fun r => r.resolve (Bytes.ofString "all")) = some (.ok 2) := rfl
  have hback : ((run .psi (Sample.first ++ Sample.later))[1]?.map fun r => r.resolve (Bytes.ofString "all")) = some (.ok 1) := rfl
  refine ⟨⟨r, hr, hany, ?_⟩, ⟨r', hr', ?_, ?_⟩, ?_⟩
  · obtain ⟨r'', hr'', hresolve⟩ := Option.map_eq_some_iff.mp hall
    exact Option.some.inj (hr''.symm.trans hr) ▸ hresolve
  · obtain ⟨r'', hr'', hresolve⟩ := Option.map_eq_some_iff.mp hback
    exact Option.some.inj (hr''.symm.trans hr') ▸ hresolve
  · obtain rfl := Option.some.inj hr'
    exact List.mergeSort_of_pairwise (by decide +kernel)
  · refine hother 0 Nat.two_pos (Sample.later.drop 2) ?_
    simp [Sample.later, Call.target?]

end ModalGraph.Registry
