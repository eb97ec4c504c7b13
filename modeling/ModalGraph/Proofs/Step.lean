import Mathlib.Tactic.Basic
import ModalGraph.Failure.Basic

/-!
# Steps that may fail

Lemmas about results and about steps that change a state and may fail: what a sequence of two steps gives, and what is left of a
result when only the class of its failure counts (`outcome`).
-/

namespace ModalGraph

/-- A step that succeeds goes on with its value. -/
theorem ok_bind {ε α β : Type} (a : α) (f : α → Except ε β) : (Except.ok a >>= f) = f a := rfl

/-- The parts of a sequence of two steps that succeeds. -/
theorem bind_ok {ε α β : Type} {x : Except ε α} {f : α → Except ε β} {b : β} (h : (x >>= f) = .ok b) :
    ∃ a, x = .ok a ∧ f a = .ok b := by
  cases x with
  | error e => cases h
  | ok a => exact ⟨a, rfl, h⟩

/-- A sequence of two steps succeeds with a property if both steps do. -/
theorem exists_bind_ok {ε α β : Type} {x : Except ε α} {f : α → Except ε β} {p : β → Prop} :
    (∃ b, (x >>= f) = .ok b ∧ p b) ↔ ∃ a, x = .ok a ∧ ∃ b, f a = .ok b ∧ p b := by
  constructor
  · rintro ⟨b, hb, hp⟩
    obtain ⟨a, ha, hb⟩ := bind_ok hb
    exact ⟨a, ha, b, hb, hp⟩
  · rintro ⟨a, rfl, b, hb, hp⟩
    exact ⟨b, hb, hp⟩

theorem exists_pure_ok {ε α : Type} {a : α} {p : α → Prop} : (∃ b, (pure a : Except ε α) = .ok b ∧ p b) ↔ p a :=
  ⟨fun ⟨_, hb, hp⟩ => by cases hb; exact hp, fun hp => ⟨a, rfl, hp⟩⟩

/-- A sequence of two steps that fails does so in one of them. -/
theorem bind_error {ε α β : Type} {x : Except ε α} {f : α → Except ε β} {e : ε} (h : (x >>= f) = .error e) :
    x = .error e ∨ ∃ a, x = .ok a ∧ f a = .error e := by
  cases x with
  | error e' =>
    cases h
    exact .inl rfl
  | ok a => exact .inr ⟨a, rfl, h⟩

theorem map_ok {ε α β : Type} {x : Except ε α} {f : α → β} {b : β} (h : f <$> x = .ok b) : ∃ a, x = .ok a ∧ f a = b := by
  cases x with
  | error e => cases h
  | ok a => exact ⟨a, rfl, Except.ok.inj h⟩

theorem map_error {ε α β : Type} {x : Except ε α} {f : α → β} {e : ε} (h : f <$> x = .error e) : x = .error e := by
  cases x with
  | error e' => exact congrArg Except.error (Except.error.inj h)
  | ok a => cases h

theorem exists_of_isOk {ε α : Type} {x : Except ε α} (h : x.isOk = true) : ∃ a, x = .ok a := by
  cases x with
  | error e => cases h
  | ok a => exact ⟨a, rfl⟩

theorem ok_of_toOption {ε α : Type} {x : Except ε α} {a : α} (h : x.toOption = some a) : x = .ok a := by
  cases x with
  | error e => cases h
  | ok b => exact congrArg Except.ok (Option.some.inj h)

theorem inPlace_ok {α : Type} {place : String} {x : Except Failure α} {a : α} (h : inPlace place x = .ok a) : x = .ok a := by
  cases x with
  | error f => cases h
  | ok b => exact h

/-- What is there is what work goes on with. -/
theorem orAborted_ok {α : Type} {o : Option α} {a : α} (h : orAborted o = .ok a) : o = some a := by
  cases o with
  | none => cases h
  | some b => exact congrArg some (Except.ok.inj h)

/-! ## Results up to the class of their failure -/

/-- A result of which only the class of the failure counts. -/
def outcome {α : Type} : Except Failure α → Except Failure.Kind α
  | .ok a => .ok a
  | .error f => .error f.kind

@[simp] theorem outcome_ok {α : Type} (a : α) : outcome (.ok a) = .ok a := rfl

@[simp] theorem outcome_error {α : Type} (f : Failure) : outcome (.error f : Except Failure α) = .error f.kind := rfl

theorem outcome_eq_ok {α : Type} {x : Except Failure α} {a : α} : outcome x = .ok a ↔ x = .ok a := by
  cases x with
  | error f => simp
  | ok b => simp

theorem outcome_eq_error {α : Type} {x : Except Failure α} {kind : Failure.Kind} :
    outcome x = .error kind ↔ ∃ f, x = .error f ∧ f.kind = kind := by
  cases x with
  | error f => simp
  | ok b => simp

/-- The class of a failure does not depend on the words on where it arose. -/
@[simp] theorem kind_within (place : String) (f : Failure) : (Failure.within place f).kind = f.kind := rfl

@[simp] theorem outcome_inPlace {α : Type} (place : String) (x : Except Failure α) : outcome (inPlace place x) = outcome x := by
  cases x with
  | error f => rfl
  | ok a => rfl

/-- Results that are equal up to the class of their failure stay so when the same goes on with both. -/
theorem outcome_bind {α β : Type} {x y : Except Failure α} {f g : α → Except Failure β} (h : outcome x = outcome y)
    (hf : ∀ a, x = .ok a → outcome (f a) = outcome (g a)) : outcome (x >>= f) = outcome (y >>= g) := by
  cases x with
  | error e =>
    cases y with
    | error e' => exact congrArg Except.error (Except.error.inj h)
    | ok b => cases h
  | ok a =>
    cases y with
    | error e' => cases h
    | ok b =>
      obtain rfl := Except.ok.inj h
      exact hf a rfl

/-! ## Results with a property -/

/-- A result is a value with a property, or one of some failures. -/
def EndsIn {α : Type} (P : α → Prop) (F : Failure → Prop) : Except Failure α → Prop
  | .ok a => P a
  | .error f => F f

namespace EndsIn

variable {α β : Type} {P P' : α → Prop} {Q : β → Prop} {F : Failure → Prop} {x : Except Failure α}

theorem imp (h : EndsIn P F x) (hP : ∀ a, P a → P' a) : EndsIn P' F x := by
  cases x with
  | ok a => exact hP a h
  | error f => exact h

theorem weaken {F' : Failure → Prop} (h : EndsIn P F x) (hF : ∀ f, F f → F' f) : EndsIn P F' x := by
  cases x with
  | ok a => exact h
  | error f => exact hF f h

theorem bind {f : α → Except Failure β} (h : EndsIn P F x) (hf : ∀ a, P a → EndsIn Q F (f a)) : EndsIn Q F (x >>= f) := by
  cases x with
  | ok a => exact hf a h
  | error f => exact h

theorem map {f : α → β} (h : EndsIn P F x) (hf : ∀ a, P a → Q (f a)) : EndsIn Q F (f <$> x) := by
  cases x with
  | ok a => exact hf a h
  | error f => exact h

/-- A value of each of some results. -/
theorem mapM {l : List β} {f : β → Except Failure α} (h : ∀ b ∈ l, EndsIn P F (f b)) :
    EndsIn (fun as => as.length = l.length ∧ ∀ a ∈ as, P a) F (l.mapM f) := by
  induction l with
  | nil => exact ⟨rfl, fun a ha => by cases ha⟩
  | cons b l ih =>
    rw [List.mapM_cons]
    refine (h b List.mem_cons_self).bind fun a ha => ?_
    refine (ih fun b' hb' => h b' (List.mem_cons_of_mem _ hb')).bind fun as has => ?_
    obtain ⟨hlen, has⟩ := has
    refine ⟨by rw [List.length_cons, List.length_cons, hlen], fun a' ha' => ?_⟩
    rcases List.mem_cons.mp ha' with rfl | ha'
    · exact ha
    · exact has a' ha'

/-- What is there has a property, or nothing is there and work breaks off. -/
theorem orAborted {o : Option α} (h : ∀ a, o = some a → P a) (hF : o = none → F .aborted) : EndsIn P F (ModalGraph.orAborted o) := by
  cases o with
  | none => exact hF rfl
  | some a => exact h a rfl

/-- What words on the place do to the failures. -/
theorem inPlace {F' : Failure → Prop} {place : String} (h : EndsIn P F x) (hF : ∀ f, F f → F' (.within place f)) :
    EndsIn P F' (ModalGraph.inPlace place x) := by
  cases x with
  | ok a => exact h
  | error f => exact hF f h

end EndsIn

/-! ## Steps with a state -/

section

variable {σ α β : Type}

/-- A sequence of two steps: the second is taken from where the first has ended, unless the first fails. -/
theorem run_bind (x : ExceptT Failure (StateM σ) α) (f : α → ExceptT Failure (StateM σ) β) (s : σ) :
    (x >>= f).run s = match x.run s with
      | (.ok a, s') => (f a).run s'
      | (.error e, s') => (.error e, s') := by
  show (ExceptT.bindCont f (x.run s).1).run (x.run s).2 = _
  rcases x.run s with ⟨r, s'⟩
  cases r <;> rfl

theorem run_bind_ok {x : ExceptT Failure (StateM σ) α} {f : α → ExceptT Failure (StateM σ) β} {s s' : σ} {a : α}
    (h : x.run s = (.ok a, s')) : (x >>= f).run s = (f a).run s' := by
  rw [run_bind, h]

/-- The parts of a sequence of two steps that succeeds. -/
theorem run_bind_inv {x : ExceptT Failure (StateM σ) α} {f : α → ExceptT Failure (StateM σ) β} {s s'' : σ} {b : β}
    (h : (x >>= f).run s = (.ok b, s'')) : ∃ a s', x.run s = (.ok a, s') ∧ (f a).run s' = (.ok b, s'') := by
  rw [run_bind] at h
  rcases hx : x.run s with ⟨r, s'⟩
  rw [hx] at h
  cases r with
  | error e => cases h
  | ok a => exact ⟨a, s', rfl, h⟩

/-- A sequence of two steps that fails does so in one of them. -/
theorem run_bind_error {x : ExceptT Failure (StateM σ) α} {f : α → ExceptT Failure (StateM σ) β} {s s'' : σ} {e : Failure}
    (h : (x >>= f).run s = (.error e, s'')) :
    x.run s = (.error e, s'') ∨ ∃ a s', x.run s = (.ok a, s') ∧ (f a).run s' = (.error e, s'') := by
  rw [run_bind] at h
  rcases hx : x.run s with ⟨r, s'⟩
  rw [hx] at h
  cases r with
  | error e' =>
    cases h
    exact .inl rfl
  | ok a => exact .inr ⟨a, s', rfl, h⟩

@[simp] theorem run_return (a : α) (s : σ) : (pure a : ExceptT Failure (StateM σ) α).run s = (.ok a, s) := rfl

@[simp] theorem run_fail (e : Failure) (s : σ) : (throw e : ExceptT Failure (StateM σ) α).run s = (.error e, s) := rfl

/-- A result taken as a step changes nothing. -/
@[simp] theorem run_lift (x : Except Failure α) (s : σ) : (liftM x : ExceptT Failure (StateM σ) α).run s = (x, s) := by
  cases x with
  | error e => rfl
  | ok a => rfl

theorem run_lift_inv {x r : Except Failure α} {s s' : σ} (h : (liftM x : ExceptT Failure (StateM σ) α).run s = (r, s')) :
    x = r ∧ s = s' :=
  Prod.mk.inj ((run_lift x s).symm.trans h)

@[simp] theorem run_state (s : σ) : (get : ExceptT Failure (StateM σ) σ).run s = (.ok s, s) := rfl

@[simp] theorem run_put (s s' : σ) : (set s' : ExceptT Failure (StateM σ) PUnit).run s = (.ok ⟨⟩, s') := rfl

@[simp] theorem run_change (f : σ → σ) (s : σ) : (modify f : ExceptT Failure (StateM σ) PUnit).run s = (.ok ⟨⟩, f s) := rfl

end

end ModalGraph
