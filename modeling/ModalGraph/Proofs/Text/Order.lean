import ModalGraph.Text.Bytes

/-!
# Byte strings in order

The bytewise order is a total order (`le_total`, `le_trans`, `le_antisymm`), so a list without repetition that is sorted by it is in
strict order (`mergeSort_strict`).
-/

namespace ModalGraph.Bytes

/-- Smaller in the bytewise order. -/
def Before (a b : Bytes) : Prop :=
  le a b = true ∧ a ≠ b

theorem le_total : ∀ a b : Bytes, le a b = false → le b a = true
  | [], _, h => by cases h
  | _ :: _, [], _ => rfl
  | a :: as, b :: bs, h => by
    simp only [le, Bool.or_eq_false_iff, Bool.and_eq_false_iff, decide_eq_false_iff_not, beq_eq_false_iff_ne] at h
    simp only [le, Bool.or_eq_true, Bool.and_eq_true, decide_eq_true_eq, beq_iff_eq]
    obtain ⟨hlt, hrest⟩ := h
    by_cases heq : a = b
    · exact .inr ⟨heq.symm, le_total as bs (hrest.resolve_left fun hne => hne heq)⟩
    · exact .inl (UInt8.lt_of_le_of_ne (UInt8.not_lt.mp hlt) (Ne.symm heq))

theorem le_trans : ∀ {a b c : Bytes}, le a b = true → le b c = true → le a c = true
  | [], _, _, _, _ => rfl
  | _ :: _, [], _, h, _ => by cases h
  | _ :: _, _ :: _, [], _, h => by cases h
  | a :: as, b :: bs, c :: cs, h, h' => by
    simp only [le, Bool.or_eq_true, Bool.and_eq_true, decide_eq_true_eq, beq_iff_eq] at h h' ⊢
    rcases h with h | ⟨rfl, h⟩
    · rcases h' with h' | ⟨rfl, -⟩
      · exact .inl (UInt8.lt_trans h h')
      · exact .inl h
    · rcases h' with h' | ⟨rfl, h'⟩
      · exact .inl h'
      · exact .inr ⟨rfl, le_trans h h'⟩

theorem le_antisymm : ∀ {a b : Bytes}, le a b = true → le b a = true → a = b
  | [], [], _, _ => rfl
  | [], _ :: _, _, h => by cases h
  | _ :: _, [], h, _ => by cases h
  | a :: as, b :: bs, h, h' => by
    simp only [le, Bool.or_eq_true, Bool.and_eq_true, decide_eq_true_eq, beq_iff_eq] at h h'
    rcases h with h | ⟨rfl, h⟩
    · rcases h' with h' | ⟨rfl, -⟩
      · exact absurd (UInt8.lt_trans h h') (UInt8.lt_irrefl a)
      · exact absurd h (UInt8.lt_irrefl _)
    · rw [le_antisymm h (h'.resolve_left (UInt8.lt_irrefl _)).2]

theorem Before.trans {a b c : Bytes} (h : Before a b) (h' : Before b c) : Before a c := by
  refine ⟨le_trans h.1 h'.1, ?_⟩
  rintro rfl
  exact h.2 (le_antisymm h.1 h'.1)

/-- Of two byte strings one is not after the other, said of both at once. -/
theorem le_or_le (a b : Bytes) : (le a b || le b a) = true := by
  cases h : le a b with
  | true => rfl
  | false => exact le_total a b h

/-- Different byte strings are sorted into strict order. -/
theorem mergeSort_strict {l : List Bytes} (h : l.Nodup) : (l.mergeSort le).Pairwise Before := by
  have hsorted : (l.mergeSort le).Pairwise fun a b => le a b = true :=
    @List.pairwise_mergeSort Bytes le (fun _ _ _ => le_trans) le_or_le l
  exact hsorted.and (((List.mergeSort_perm l le).nodup_iff).mpr h)

end ModalGraph.Bytes
