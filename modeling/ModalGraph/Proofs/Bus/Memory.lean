import Mathlib.Data.List.Basic
import ModalGraph.Bus.Memory

/-!
# What appending leaves as it is

Appending to a list may write into a block that other lists have cells in. It spares those that end where the list ends or
before (`Stretch.Spares`), and every list if there is no room in the block, which is then not written to. A list that has grown by
appending still spares the lists that it spared before (`Memory.append_spares`).
-/

namespace ModalGraph

namespace Stretch

/-- Appending to the list writes nothing into the cells of another one. -/
def Spares (s v : Stretch) : Prop :=
  v.block = s.block → v.length ≤ s.length ∨ s.room ≤ s.length

/-- Lists that have no cell in common. -/
def Apart (s v : Stretch) : Prop :=
  s.block = v.block → s.length = 0 ∨ v.length = 0

theorem Apart.symm {s v : Stretch} (h : s.Apart v) : v.Apart s :=
  fun heq => (h heq.symm).symm

theorem Apart.cut {s v : Stretch} (h : s.Apart v) {length : Nat} (hlength : length ≤ s.length) : (s.cut length).Apart v :=
  fun heq => (h heq).imp_left fun hzero => Nat.le_zero.mp (Nat.le_trans hlength (Nat.le_of_eq hzero))

theorem nil_spares (v : Stretch) : nil.Spares v :=
  fun _ => .inr (Nat.le_refl 0)

theorem nil_apart (v : Stretch) : nil.Apart v :=
  fun _ => .inl rfl

/-- Nothing is written behind a list that was cut: it has no room. -/
theorem cut_spares (s v : Stretch) (length : Nat) : (s.cut length).Spares v :=
  fun _ => .inr (Nat.le_refl length)

end Stretch

namespace Memory

variable {α : Type} {m : Memory α} {s v : Stretch} {xs : List α}

/-- A list all of whose cells have been written, that has room for them, and no room if it has no cells. -/
structure Fits (m : Memory α) (s : Stretch) : Prop where
  written : s.length ≤ (m.block s.block).length
  length_le : s.length ≤ s.room
  room : s.length = 0 → s.room = 0

theorem Fits.nil (m : Memory α) : m.Fits .nil :=
  ⟨Nat.zero_le _, Nat.le_refl _, fun _ => rfl⟩

theorem Fits.cut (h : m.Fits s) {length : Nat} (hlength : length ≤ s.length) : m.Fits (s.cut length) :=
  ⟨Nat.le_trans hlength h.written, Nat.le_refl _, fun hzero => hzero⟩

theorem cells_of_length_eq_zero (h : s.length = 0) (m : Memory α) : m.cells s = [] := by
  rw [cells, h, List.take_zero]

/-- A list whose block is the same has the same cells. -/
theorem Fits.same {m' : Memory α} (h : m.Fits s) (hblock : m'.block s.block = m.block s.block) : m'.Fits s ∧ m'.cells s = m.cells s :=
  ⟨⟨by rw [hblock]; exact h.written, h.length_le, h.room⟩, by rw [cells, cells, hblock]⟩

theorem length_cells (h : m.Fits s) : (m.cells s).length = s.length := by
  rw [cells, List.length_take, Nat.min_eq_left h.written]

theorem cells_cut {length : Nat} (hlength : length ≤ s.length) : m.cells (s.cut length) = (m.cells s).take length := by
  rw [cells, cells, List.take_take, Nat.min_eq_left hlength]
  rfl

/-- A list with cells is in a block that there is. -/
theorem Fits.block_lt (h : m.Fits s) (hne : s.length ≠ 0) : s.block < m.blocks.length := by
  by_contra hle
  have hnone : m.blocks[s.block]? = none := List.getElem?_eq_none (Nat.le_of_not_lt hle)
  have hwritten := h.written
  rw [block, hnone] at hwritten
  exact hne (Nat.le_zero.mp hwritten)

theorem Fits.spares_of_apart (h : m.Fits s) (hapart : s.Apart v) : s.Spares v := by
  intro heq
  rcases hapart heq.symm with hs | hv
  · exact .inr (h.room hs ▸ Nat.zero_le _)
  · exact .inl (hv ▸ Nat.zero_le _)

/-! ## Writing -/

theorem block_write_self (h : s.block < m.blocks.length) (xs : List α) : (m.write s xs).block s.block =
    (m.block s.block).take s.length ++ xs ++ (m.block s.block).drop (s.length + xs.length) := by
  rw [block, block, write, List.getElem?_modify_eq, List.getElem?_eq_getElem h]
  rfl

theorem block_write_ne {i : Nat} (h : s.block ≠ i) (xs : List α) : (m.write s xs).block i = m.block i := by
  simp [block, write, h]

theorem write_nil (m : Memory α) (s : Stretch) : m.write s [] = m := by
  have hsame : (fun cells : List α => cells.take s.length ++ [] ++ cells.drop (s.length + ([] : List α).length)) = id := by
    funext cells
    rw [List.append_nil, List.length_nil, Nat.add_zero, List.take_append_drop]
    rfl
  rw [write, hsame, List.modify_id]

/-- The block of a new list. -/
theorem block_new (m : Memory α) (cells : List α) : block ⟨m.blocks ++ [cells]⟩ m.blocks.length = cells := by
  rw [block, List.getElem?_append_right (Nat.le_refl _), Nat.sub_self]
  rfl

theorem block_old (cells : List α) {i : Nat} (h : i < m.blocks.length) : block ⟨m.blocks ++ [cells]⟩ i = m.block i := by
  rw [block, block, List.getElem?_append_left h]

/-! ## Appending -/

theorem append_nil (grow : Nat → Nat → Nat) (h : m.Fits s) : m.append grow s [] = (m, s) := by
  rw [append, List.length_nil, Nat.add_zero, if_pos h.length_le, write_nil]

/-- There are two ways to append cells, if there are any: behind a list with cells in its block, or in a new block. -/
theorem append_cases (grow : Nat → Nat → Nat) (h : m.Fits s) (xs : List α) : (xs = [] ∧ m.append grow s xs = (m, s)) ∨
    (s.length ≠ 0 ∧ s.length < s.room ∧ s.length + xs.length ≤ s.room ∧
      m.append grow s xs = (m.write s xs, { s with length := s.length + xs.length })) ∨
    ∃ room, s.length + xs.length ≠ 0 ∧ s.length + xs.length ≤ room ∧
      m.append grow s xs = (⟨m.blocks ++ [m.cells s ++ xs]⟩, ⟨m.blocks.length, s.length + xs.length, room⟩) := by
  cases xs with
  | nil => exact .inl ⟨rfl, append_nil grow h⟩
  | cons x xs =>
    refine .inr ?_
    unfold append
    dsimp only
    rw [List.length_cons]
    split
    · rename_i hroom
      refine .inl ⟨fun hzero => ?_, by omega, hroom, rfl⟩
      have := h.room hzero
      omega
    · exact .inr ⟨_, by omega, Nat.le_max_left _ _, rfl⟩

theorem append_cells (grow : Nat → Nat → Nat) (h : m.Fits s) (xs : List α) :
    (m.append grow s xs).1.cells (m.append grow s xs).2 = m.cells s ++ xs := by
  rcases append_cases grow h xs with ⟨rfl, heq⟩ | ⟨hne, -, -, heq⟩ | ⟨room, -, -, heq⟩
  · rw [heq, List.append_nil]
  · rw [heq]
    show ((m.write s xs).block s.block).take (s.length + xs.length) = m.cells s ++ xs
    have hlen : (m.cells s ++ xs).length = s.length + xs.length := by rw [List.length_append, length_cells h]
    rw [block_write_self (h.block_lt hne), ← hlen]
    exact List.take_left
  · rw [heq]
    show (block ⟨m.blocks ++ [m.cells s ++ xs]⟩ m.blocks.length).take (s.length + xs.length) = m.cells s ++ xs
    have hlen : (m.cells s ++ xs).length = s.length + xs.length := by rw [List.length_append, length_cells h]
    rw [block_new, List.take_of_length_le (Nat.le_of_eq hlen)]

theorem append_fits (grow : Nat → Nat → Nat) (h : m.Fits s) (xs : List α) : (m.append grow s xs).1.Fits (m.append grow s xs).2 := by
  rcases append_cases grow h xs with ⟨rfl, heq⟩ | ⟨hne, -, hle, heq⟩ | ⟨room, hne, hle, heq⟩
  · rwa [heq]
  · rw [heq]
    refine ⟨?_, hle, fun hzero => absurd (Nat.eq_zero_of_add_eq_zero_right hzero) hne⟩
    show s.length + xs.length ≤ ((m.write s xs).block s.block).length
    have htake : ((m.block s.block).take s.length).length = s.length := length_cells h
    rw [block_write_self (h.block_lt hne), List.length_append, List.length_append, htake]
    exact Nat.le_add_right _ _
  · rw [heq]
    have hlen : (block ⟨m.blocks ++ [m.cells s ++ xs]⟩ m.blocks.length).length = s.length + xs.length := by
      rw [block_new, List.length_append, length_cells h]
    exact ⟨Nat.le_of_eq hlen.symm, hle, fun hzero => absurd hzero hne⟩

/-- Appending to a list changes nothing about the lists that it spares. -/
theorem append_other (grow : Nat → Nat → Nat) (hs : m.Fits s) (hv : m.Fits v) (hspares : s.Spares v) (xs : List α) :
    (m.append grow s xs).1.Fits v ∧ (m.append grow s xs).1.cells v = m.cells v := by
  rcases append_cases grow hs xs with ⟨rfl, heq⟩ | ⟨hne, hroom, -, heq⟩ | ⟨room, -, -, heq⟩
  · rw [heq]
    exact ⟨hv, rfl⟩
  · rw [heq]
    dsimp only
    by_cases hblock : v.block = s.block
    · have hlength : v.length ≤ s.length := (hspares hblock).resolve_right (Nat.not_le_of_lt hroom)
      have hself := block_write_self (hs.block_lt hne) xs
      have htake : ((m.block s.block).take s.length).length = s.length := length_cells hs
      rw [← hblock] at hself htake
      refine ⟨⟨?_, hv.length_le, hv.room⟩, ?_⟩
      · rw [hself, List.length_append, List.length_append, htake]
        omega
      · rw [cells, cells, hself, List.append_assoc, List.take_append_of_le_length (by omega), List.take_take,
          Nat.min_eq_left hlength]
    · exact hv.same (block_write_ne (Ne.symm hblock) xs)
  · rw [heq]
    dsimp only
    by_cases hzero : v.length = 0
    · refine ⟨⟨hzero ▸ Nat.zero_le _, hv.length_le, hv.room⟩, ?_⟩
      rw [cells_of_length_eq_zero hzero, cells_of_length_eq_zero hzero]
    · exact hv.same (block_old (m.cells s ++ xs) (hv.block_lt hzero))

/-- A list that has grown spares what it spared before. -/
theorem append_spares (grow : Nat → Nat → Nat) (hs : m.Fits s) (hv : m.Fits v) (hspares : s.Spares v) (xs : List α) :
    (m.append grow s xs).2.Spares v := by
  rcases append_cases grow hs xs with ⟨rfl, heq⟩ | ⟨-, hroom, -, heq⟩ | ⟨room, -, -, heq⟩
  · rwa [heq]
  · rw [heq]
    exact fun hblock => .inl (Nat.le_add_right_of_le ((hspares hblock).resolve_right (Nat.not_le_of_lt hroom)))
  · rw [heq]
    intro hblock
    by_cases hzero : v.length = 0
    · exact .inl (hzero ▸ Nat.zero_le _)
    · exact absurd hblock (Nat.ne_of_lt (hv.block_lt hzero))

/-- A list that has grown has no cell of lists that it had none of before. -/
theorem append_apart (grow : Nat → Nat → Nat) (hs : m.Fits s) (hv : m.Fits v) (hapart : s.Apart v) (xs : List α) :
    (m.append grow s xs).2.Apart v := by
  rcases append_cases grow hs xs with ⟨rfl, heq⟩ | ⟨hne, -, -, heq⟩ | ⟨room, -, -, heq⟩
  · rwa [heq]
  · rw [heq]
    exact fun hblock => .inr ((hapart hblock).resolve_left hne)
  · rw [heq]
    intro hblock
    by_cases hzero : v.length = 0
    · exact .inr hzero
    · exact absurd hblock.symm (Nat.ne_of_lt (hv.block_lt hzero))

/-- A list has grown to another one: it has the cells of before and some more, nothing has changed about the lists that it spared, and
it spares them still. -/
structure Grown (m : Memory α) (s : Stretch) (xs : List α) (m' : Memory α) (s' : Stretch) : Prop where
  fits : m'.Fits s'
  cells : m'.cells s' = m.cells s ++ xs
  other : ∀ v, m.Fits v → s.Spares v → m'.Fits v ∧ m'.cells v = m.cells v
  spares : ∀ v, m.Fits v → s.Spares v → s'.Spares v
  apart : ∀ v, m.Fits v → s.Apart v → s'.Apart v

theorem append_grown (grow : Nat → Nat → Nat) (h : m.Fits s) (xs : List α) :
    m.Grown s xs (m.append grow s xs).1 (m.append grow s xs).2 where
  fits := append_fits grow h xs
  cells := append_cells grow h xs
  other := fun _ hv hspares => append_other grow h hv hspares xs
  spares := fun _ hv hspares => append_spares grow h hv hspares xs
  apart := fun _ hv hapart => append_apart grow h hv hapart xs

/-- A list without cells may be any of them. -/
theorem Grown.nil {m' : Memory α} {s' : Stretch} (h : m.Grown s xs m' s') (hzero : s'.length = 0) : m.Grown s xs m' .nil where
  fits := Fits.nil m'
  cells := by rw [← h.cells, cells_of_length_eq_zero hzero, cells_of_length_eq_zero rfl]
  other := h.other
  spares := fun v _ _ => Stretch.nil_spares v
  apart := fun v _ _ => Stretch.nil_apart v

end Memory

end ModalGraph
