import ModalGraph.Proofs.Step

/-!
# Two results side by side

Two steps that are taken under different circumstances agree if both succeed, with values that go together, or both fail in the same
class of failures (`Agree`). Sequences of steps that agree one by one agree.
-/

namespace ModalGraph

/-- Values that go together, or failures of the same class. -/
def Agree {α β : Type} (R : α → β → Prop) : Except Failure α → Except Failure β → Prop
  | .ok a, .ok b => R a b
  | .error f, .error g => f.kind = g.kind
  | _, _ => False

namespace Agree

variable {α α' β β' : Type} {R S : α → β → Prop} {x : Except Failure α} {y : Except Failure β}

theorem imp (h : Agree R x y) (hRS : ∀ a b, R a b → S a b) : Agree S x y := by
  cases x with
  | error f =>
    cases y with
    | error g => exact h
    | ok b => exact h.elim
  | ok a =>
    cases y with
    | error g => exact h.elim
    | ok b => exact hRS a b h

theorem of_ok {a : α} (h : Agree R (.ok a) y) : ∃ b, y = .ok b ∧ R a b := by
  cases y with
  | error g => exact h.elim
  | ok b => exact ⟨b, rfl, h⟩

theorem of_ok_right {b : β} (h : Agree R x (.ok b)) : ∃ a, x = .ok a ∧ R a b := by
  cases x with
  | error f => exact h.elim
  | ok a => exact ⟨a, rfl, h⟩

/-- One of two results that agree succeeds exactly if the other one does. -/
theorem ok_iff (h : Agree R x y) : (∃ a, x = .ok a) ↔ ∃ b, y = .ok b := by
  constructor
  · rintro ⟨a, rfl⟩
    exact h.of_ok.imp fun _ hb => hb.1
  · rintro ⟨b, rfl⟩
    exact h.of_ok_right.imp fun _ ha => ha.1

/-- The words on a failure do not matter. -/
theorem congr {x' : Except Failure α} {y' : Except Failure β} (h : Agree R x y) (hx : outcome x' = outcome x)
    (hy : outcome y' = outcome y) : Agree R x' y' := by
  cases x with
  | error f =>
    obtain ⟨f', rfl, hf⟩ := outcome_eq_error.mp hx
    cases y with
    | error g =>
      obtain ⟨g', rfl, hg⟩ := outcome_eq_error.mp hy
      exact hf.trans (Eq.trans h hg.symm)
    | ok b => exact h.elim
  | ok a =>
    obtain rfl := outcome_eq_ok.mp hx
    cases y with
    | error g => exact h.elim
    | ok b =>
      obtain rfl := outcome_eq_ok.mp hy
      exact h

/-- Results that agree on equality are equal, up to the words on a failure. -/
theorem eq_iff {x y : Except Failure α} : Agree Eq x y ↔ outcome x = outcome y := by
  cases x with
  | error f =>
    cases y with
    | error g => exact ⟨fun h => congrArg Except.error h, fun h => Except.error.inj h⟩
    | ok b => exact ⟨False.elim, nofun⟩
  | ok a =>
    cases y with
    | error g => exact ⟨False.elim, nofun⟩
    | ok b => exact ⟨fun h => congrArg Except.ok h, fun h => Except.ok.inj h⟩

theorem refl (x : Except Failure α) : Agree Eq x x :=
  eq_iff.mpr rfl

/-- Steps that agree go on from values that go together. -/
theorem bind {S : α' → β' → Prop} {f : α → Except Failure α'} {g : β → Except Failure β'} (h : Agree R x y)
    (hf : ∀ a b, R a b → Agree S (f a) (g b)) : Agree S (x >>= f) (y >>= g) := by
  cases x with
  | error e =>
    cases y with
    | error e' => exact h
    | ok b => exact h.elim
  | ok a =>
    cases y with
    | error e' => exact h.elim
    | ok b => exact hf a b h

theorem map {S : α' → β' → Prop} {f : α → α'} {g : β → β'} (h : Agree R x y) (hf : ∀ a b, R a b → S (f a) (g b)) :
    Agree S (f <$> x) (g <$> y) := by
  cases x with
  | error e =>
    cases y with
    | error e' => exact h
    | ok b => exact h.elim
  | ok a =>
    cases y with
    | error e' => exact h.elim
    | ok b => exact hf a b h

theorem inPlace {place place' : String} (h : Agree R x y) : Agree R (ModalGraph.inPlace place x) (ModalGraph.inPlace place' y) :=
  h.congr (outcome_inPlace _ _) (outcome_inPlace _ _)

end Agree

end ModalGraph
