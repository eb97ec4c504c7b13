import Mathlib.Logic.Equiv.Defs
import ModalGraph.Proofs.Agree
import ModalGraph.Proofs.Formula.Width
import ModalGraph.Proofs.Tensor.Rows

/-!
# Tensors with renumbered rows

Two tensors of one shape and domain whose rows are the same up to their numbers (`Tensor.Renumbered`): row `p i` of the second one is
row `i` of the first one. Operations that go through the rows one by one give renumbered tensors on renumbered tensors; picking rows
at the ends of edges gives tensors whose rows are renumbered like the edges (`Renumbered.gather`); and whether two tensors are equal
does not depend on the numbers of their rows (`Renumbered.equal_eq`). Where there is no room for a result there is none on either side,
since the room that it takes depends on the shape only.
-/

namespace ModalGraph

section

variable {n k : Nat}

/-- The number that a node gets. What is not the number of a node stays as it is. -/
def renamed (p : Equiv.Perm (Fin n)) (i : Int) : Int :=
  if h : 0 ≤ i ∧ i < n then ((p ⟨i.toNat, by omega⟩ : Fin n) : Nat) else i

variable {p : Equiv.Perm (Fin n)} {q : Equiv.Perm (Fin k)}

theorem renamed_natCast (p : Equiv.Perm (Fin n)) (i : Fin n) : renamed p ((i : Nat) : Int) = ((p i : Fin n) : Nat) := by
  rw [renamed, dif_pos ⟨by omega, by omega⟩]
  rfl

theorem renamed_among {i : Int} : (0 ≤ renamed p i ∧ renamed p i < n) ↔ 0 ≤ i ∧ i < n := by
  by_cases h : 0 ≤ i ∧ i < n
  · rw [renamed, dif_pos h]
    exact ⟨fun _ => h, fun _ => ⟨by omega, by omega⟩⟩
  · rw [renamed, dif_neg h]

/-- One kind of ends of `k` edges, and the same ends with nodes renumbered by `p` and edges by `q`. -/
structure EndsRenumbered (p : Equiv.Perm (Fin n)) (q : Equiv.Perm (Fin k)) (ends ends' : List Int) : Prop where
  length_eq : ends.length = k
  length_image : ends'.length = k
  end_eq : ∀ j : Fin k, ends'[(q j : Nat)]? = ends[(j : Nat)]?.map (renamed p)

namespace EndsRenumbered

variable {ends ends' : List Int}

/-- The renumbered ends of edges are renumbered ends of edges. -/
theorem mem_iff (h : EndsRenumbered p q ends ends') {d : Int} : d ∈ ends' ↔ ∃ c ∈ ends, d = renamed p c := by
  constructor
  · intro hd
    obtain ⟨j, hj⟩ := List.mem_iff_getElem?.mp hd
    have hlt : j < k := h.length_image ▸ (List.getElem?_eq_some_iff.mp hj).1
    have hend := h.end_eq (q.symm ⟨j, hlt⟩)
    rw [Equiv.apply_symm_apply, hj] at hend
    obtain ⟨c, hc, hcd⟩ := Option.map_eq_some_iff.mp hend.symm
    exact ⟨c, List.mem_of_getElem? hc, hcd.symm⟩
  · rintro ⟨c, hc, rfl⟩
    obtain ⟨j, hj⟩ := List.mem_iff_getElem?.mp hc
    have hlt : j < k := h.length_eq ▸ (List.getElem?_eq_some_iff.mp hj).1
    have hend := h.end_eq ⟨j, hlt⟩
    rw [hj] at hend
    exact List.mem_of_getElem? hend

/-- Ends of edges are nodes if the renumbered ends are. -/
theorem among_iff (h : EndsRenumbered p q ends ends') : (∀ d ∈ ends', 0 ≤ d ∧ d < (n : Int)) ↔ ∀ c ∈ ends, 0 ≤ c ∧ c < (n : Int) := by
  constructor
  · exact fun hall c hc => renamed_among.mp (hall _ (h.mem_iff.mpr ⟨c, hc, rfl⟩))
  · intro hall d hd
    obtain ⟨c, hc, rfl⟩ := h.mem_iff.mp hd
    exact renamed_among.mpr (hall c hc)

/-- Where an edge ends at a node, the renumbered edge ends at the renumbered node. -/
theorem end_among (h : EndsRenumbered p q ends ends') (hall : ∀ c ∈ ends, 0 ≤ c ∧ c < (n : Int)) (j : Fin k) :
    ∃ i : Fin n, ends[(j : Nat)]? = some ((i : Nat) : Int) ∧ ends'[(q j : Nat)]? = some (((p i : Fin n) : Nat) : Int) := by
  have hlt : (j : Nat) < ends.length := h.length_eq ▸ j.isLt
  obtain ⟨hlow, hhigh⟩ := hall _ (List.getElem_mem hlt)
  have hnat : ends[(j : Nat)] = ((ends[(j : Nat)].toNat : Nat) : Int) := (Int.toNat_of_nonneg hlow).symm
  have hget : ends[(j : Nat)]? = some ((ends[(j : Nat)].toNat : Nat) : Int) := by
    rw [List.getElem?_eq_getElem hlt, ← hnat]
  refine ⟨⟨ends[(j : Nat)].toNat, by omega⟩, hget, ?_⟩
  rw [h.end_eq, hget, Option.map_some]
  exact congrArg some (renamed_natCast p ⟨_, _⟩)

end EndsRenumbered

end

namespace Tensor

section

variable {n k w w' : Nat} {p : Equiv.Perm (Fin n)} {q : Equiv.Perm (Fin k)} {x y x' y' : Tensor}

/-- Tensors of `n` rows of one width and of one domain, of which the second one has at `p i` the row that the first one has at `i`. Their
labels are stored. -/
structure Renumbered (p : Equiv.Perm (Fin n)) (w : Nat) (x y : Tensor) : Prop where
  shaped : x.Shaped n w
  image : y.Shaped n w
  stored : Storable n w
  dtype_eq : y.dtype = x.dtype
  row_eq : ∀ i : Fin n, y.row (p i) = x.row i

theorem Renumbered.size_lt (h : x.Renumbered p w y) : n * w < 2 ^ 63 :=
  Nat.lt_of_le_of_lt h.stored (by decide)

/-- Tensors made of rows that are the same up to their numbers. -/
theorem renumbered_ofRows {row row' : Nat → List Label} (d : DType) (hstore : Storable n w) (hwidth : ∀ i < n, (row i).length = w)
    (hrow : ∀ i : Fin n, row' (p i) = row i) :
    Renumbered p w (ofRows w d ((List.range n).map row)) (ofRows w d ((List.range n).map row')) := by
  have hwidth' : ∀ i < n, (row' i).length = w := by
    intro i hi
    have hi' := hrow (p.symm ⟨i, hi⟩)
    rw [Equiv.apply_symm_apply] at hi'
    exact (congrArg List.length hi').trans (hwidth _ (p.symm ⟨i, hi⟩).isLt)
  refine ⟨ofRows_range_shaped hwidth, ofRows_range_shaped hwidth', hstore, rfl, fun i => ?_⟩
  rw [row_ofRows_range hwidth' (p i).isLt, row_ofRows_range hwidth i.isLt, hrow]

/-- Tensors made by the same function of the rows. -/
theorem Renumbered.mapRows (h : x.Renumbered p w y) (d : DType) (hstore : Storable n w') {g : List Label → List Label}
    (hg : ∀ r, r.length = w → (g r).length = w') :
    Renumbered p w' (ofRows w' d ((List.range n).map fun i => g (x.row i))) (ofRows w' d ((List.range n).map fun i => g (y.row i))) :=
  renumbered_ofRows d hstore (fun _ hi => hg _ (length_row h.shaped hi)) fun i => congrArg g (h.row_eq i)

/-- The same row for every number. -/
theorem renumbered_full (p : Equiv.Perm (Fin n)) {row : List Label} (d : DType) (hstore : Storable n row.length) :
    Renumbered p row.length (full n row d) (full n row d) := by
  rw [full_eq]
  exact renumbered_ofRows d hstore (fun _ _ => List.length_map _) fun _ => rfl

/-- The rows at the ends of edges, in the order of the edges. -/
theorem Renumbered.gather (h : x.Renumbered p w y) {ends ends' : List Int} (hends : EndsRenumbered p q ends ends')
    (hall : ∀ c ∈ ends, 0 ≤ c ∧ c < (n : Int)) : Agree (Renumbered q w) (x.gather ends) (y.gather ends') := by
  have hall' := hends.among_iff.mpr hall
  by_cases hk : k * w ≤ capacity
  swap
  · rw [gather_aborts h.shaped h.size_lt hall (hends.length_eq.symm ▸ Nat.not_le.mp hk),
      gather_aborts h.image h.size_lt hall' (hends.length_image.symm ▸ Nat.not_le.mp hk)]
    exact rfl
  rw [gather_eq_of_lt h.shaped h.size_lt hall (hends.length_eq.symm ▸ hk),
    gather_eq_of_lt h.image h.size_lt hall' (hends.length_image.symm ▸ hk)]
  have hshaped := gather_shaped h.shaped hall
  have himage := gather_shaped h.image hall'
  have hpicked : ∀ {z : Tensor}, z.Shaped n w → ∀ {l : List Int}, (∀ c ∈ l, 0 ≤ c ∧ c < (n : Int)) → ∀ {j : Nat} {i : Fin n},
      l[j]? = some ((i : Nat) : Int) → (ofRows w z.dtype (l.map fun c => z.row c.toNat)).row j = z.row i := by
    intro z hz l hl j i hi
    refine row_ofRows (fun r hr => ?_) ?_
    · obtain ⟨c, hc, rfl⟩ := List.mem_map.mp hr
      have := hl c hc
      exact length_row hz (by omega)
    · rw [List.getElem?_map, hi]
      rfl
  rw [hends.length_eq] at hshaped
  rw [hends.length_image] at himage
  refine ⟨hshaped, himage, hk, h.dtype_eq, fun j => ?_⟩
  obtain ⟨i, hi, hi'⟩ := hends.end_among hall j
  rw [hpicked h.image hall' hi', hpicked h.shaped hall hi, h.row_eq]

/-- The rows sent to a node, by the edges that go there. -/
theorem mem_sentTo_iff {target : List Int} (hx : x.Shaped k w) {i : Nat} {r : List Label} :
    r ∈ sentTo target x.rowList i ↔ ∃ j : Fin k, (∃ d, target[(j : Nat)]? = some d ∧ d.toNat = i) ∧ x.row j = r := by
  rw [mem_sentTo, rowList_eq hx]
  constructor
  · rintro ⟨j, d, hd, hi, hr⟩
    have hj : j < k := by simpa using (List.getElem?_eq_some_iff.mp hr).1
    rw [List.getElem?_map, List.getElem?_range hj, Option.map_some] at hr
    exact ⟨⟨j, hj⟩, ⟨d, hd, hi⟩, Option.some.inj hr⟩
  · rintro ⟨j, ⟨d, hd, hi⟩, hr⟩
    refine ⟨j, d, hd, hi, ?_⟩
    rw [List.getElem?_map, List.getElem?_range j.isLt, Option.map_some, hr]

/-- The rows sent to a renumbered node along renumbered edges are those sent to the node. -/
theorem Renumbered.mem_sentTo (h : x.Renumbered q w y) {target target' : List Int} (htarget : EndsRenumbered p q target target')
    (hall : ∀ c ∈ target, 0 ≤ c ∧ c < (n : Int)) (i : Fin n) {r : List Label} :
    r ∈ sentTo target' y.rowList (p i) ↔ r ∈ sentTo target x.rowList i := by
  rw [mem_sentTo_iff h.image, mem_sentTo_iff h.shaped, ← q.exists_congr_right]
  refine exists_congr fun j => and_congr ?_ (by rw [h.row_eq])
  obtain ⟨v, hv, hv'⟩ := htarget.end_among hall j
  rw [hv, hv']
  constructor
  · rintro ⟨d, hd, hi⟩
    obtain rfl := Option.some.inj hd
    rw [Int.toNat_natCast] at hi
    exact ⟨_, rfl, by rw [Int.toNat_natCast, p.injective (Fin.ext hi)]⟩
  · rintro ⟨d, hd, hi⟩
    obtain rfl := Option.some.inj hd
    rw [Int.toNat_natCast] at hi
    exact ⟨_, rfl, by rw [Int.toNat_natCast, Fin.ext hi]⟩

/-- Tensors side by side, if there are any rows. -/
theorem Renumbered.concat {ps : List (Tensor × Tensor)} (hn : 0 < n) (h : ∀ z ∈ ps, ∃ w, z.1.Renumbered p w z.2) :
    Agree (fun m m' => ∃ w, m.Renumbered p w m') (Tensor.concat (ps.map Prod.fst)) (Tensor.concat (ps.map Prod.snd)) := by
  have hwidths : totalWidth (ps.map Prod.snd) = totalWidth (ps.map Prod.fst) := by
    rw [totalWidth, totalWidth, List.map_map, List.map_map]
    refine congrArg List.sum (List.map_congr_left fun z hz => ?_)
    obtain ⟨w, hw⟩ := h z hz
    rw [Function.comp_apply, Function.comp_apply, hw.image.cols_eq, hw.shaped.cols_eq]
  have hdtypes : ∀ z ∈ ps, z.2.dtype = z.1.dtype := by
    intro z hz
    obtain ⟨w, hw⟩ := h z hz
    exact hw.dtype_eq
  have hfst : ∀ x ∈ ps.map Prod.fst, ∃ w, x.Shaped n w := by
    intro x hx
    obtain ⟨z, hz, rfl⟩ := List.mem_map.mp hx
    exact (h z hz).imp fun _ hw => hw.shaped
  have hsnd : ∀ y ∈ ps.map Prod.snd, ∃ w, y.Shaped n w := by
    intro y hy
    obtain ⟨z, hz, rfl⟩ := List.mem_map.mp hy
    exact (h z hz).imp fun _ hw => hw.image
  have hrows : ∀ i : Fin n, ((ps.map Prod.snd).map fun u => u.row (p i)).flatten = ((ps.map Prod.fst).map fun u => u.row i).flatten := by
    intro i
    rw [List.map_map, List.map_map]
    refine congrArg List.flatten (List.map_congr_left fun z hz => ?_)
    obtain ⟨w, hw⟩ := h z hz
    exact hw.row_eq i
  cases ps with
  | nil => exact rfl
  | cons z zs =>
  have hjoin : z.2.dtype.join ((zs.map Prod.snd).map Tensor.dtype) = z.1.dtype.join ((zs.map Prod.fst).map Tensor.dtype) := by
    rw [hdtypes z List.mem_cons_self, List.map_map, List.map_map]
    exact congrArg _ (List.map_congr_left fun u hu => hdtypes u (List.mem_cons_of_mem _ hu))
  change totalWidth (z.2 :: zs.map Prod.snd) = totalWidth (z.1 :: zs.map Prod.fst) at hwidths
  show Agree _ (Tensor.concat (z.1 :: zs.map Prod.fst)) (Tensor.concat (z.2 :: zs.map Prod.snd))
  by_cases hfit : n * totalWidth (z.1 :: zs.map Prod.fst) ≤ capacity
  · have hlt : totalWidth (z.1 :: zs.map Prod.fst) < 2 ^ 63 :=
      Nat.lt_of_le_of_lt ((Nat.le_mul_of_pos_left _ hn).trans hfit) (by decide)
    rw [concat_eq hfst hfit hlt, concat_eq hsnd (hwidths ▸ hfit) (hwidths ▸ hlt), hjoin, hwidths]
    exact ⟨_, renumbered_ofRows _ hfit (fun i hi => length_sideBySide hfst hi) hrows⟩
  · rw [concat_aborts hfst (Nat.not_le.mp hfit), concat_aborts hsnd (hwidths ▸ Nat.not_le.mp hfit)]
    exact rfl

namespace RenumberedAux

/-- Labels laid end to end are the same if those of each row are. -/
theorem all_zip_flatten {w : Nat} (f : Label × Label → Bool) : ∀ {a b : List (List Label)}, (∀ r ∈ a, r.length = w) →
    (∀ r ∈ b, r.length = w) → a.length = b.length → (a.flatten.zip b.flatten).all f = (a.zip b).all fun r => (r.1.zip r.2).all f
  | [], [], _, _, _ => rfl
  | [], _ :: _, _, _, h => nomatch h
  | _ :: _, [], _, _, h => nomatch h
  | r :: a, r' :: b, ha, hb, h => by
    rw [List.forall_mem_cons] at ha hb
    rw [List.flatten_cons, List.flatten_cons, List.zip_append (ha.1.trans hb.1.symm), List.all_append, List.zip_cons_cons, List.all_cons,
      all_zip_flatten f ha.2 hb.2 (Nat.succ.inj h)]

/-- Tensors are equal if they are of one shape, with the same labels in each row. -/
theorem equal_iff (hx : x.Shaped n w) (hy : y.Shaped n w') :
    x.equal y = true ↔ w = w' ∧ ∀ i : Fin n, ((x.row i).zip (y.row i)).all (fun u => u.1.same u.2) = true := by
  by_cases hw : w = w'
  · subst hw
    have hall := all_zip_flatten (fun u => u.1.same u.2) (width_of_mem_rowList hx) (width_of_mem_rowList hy)
      ((length_rowList hx).trans (length_rowList hy).symm)
    rw [flatten_rowList hx, flatten_rowList hy, rowList_eq hx, rowList_eq hy, List.zip_map', List.all_map] at hall
    rw [equal, hx.rows_eq, hy.rows_eq, hx.cols_eq, hy.cols_eq, hx.size_eq, hy.size_eq, beq_self_eq_true, beq_self_eq_true,
      beq_self_eq_true, Bool.true_and, Bool.true_and, Bool.true_and, hall, List.all_eq_true]
    exact ⟨fun h => ⟨rfl, fun i => h i (List.mem_range.mpr i.isLt)⟩, fun h i hi => h.2 ⟨i, List.mem_range.mp hi⟩⟩
  · have hcols : (x.cols == y.cols) = false := by
      rw [hx.cols_eq, hy.cols_eq, beq_eq_false_iff_ne]
      exact_mod_cast hw
    rw [equal, hcols]
    simp [hw]

end RenumberedAux

/-- The numbers of rows do not matter for equality. -/
theorem Renumbered.equal_eq (h : x.Renumbered p w y) (h' : x'.Renumbered p w' y') : x'.equal x = y'.equal y := by
  rw [Bool.eq_iff_iff, RenumberedAux.equal_iff h'.shaped h.shaped, RenumberedAux.equal_iff h'.image h.image]
  refine and_congr_right fun _ => ?_
  refine Iff.trans (forall_congr' fun i => ?_)
    (p.forall_congr_right (q := fun i : Fin n => ((y'.row i).zip (y.row i)).all (fun u => u.1.same u.2) = true))
  rw [h.row_eq, h'.row_eq]

end

end Tensor

end ModalGraph
