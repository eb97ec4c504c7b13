import ModalGraph.Proofs.Tensor.Results

/-!
# Programs of tensor operations

A program makes one tensor after the other from those that it has made before (`run`). Whatever functions it is given, all its tensors
have as many labels as their shapes call for, and truth values 0 and 1 (`run_proper`), provided that it does not call for a negative
number of rows without labels (`run_without_guard`), and that no size exceeds what is counted in words.
-/

namespace ModalGraph

namespace Tensor

/-- An operation on the tensors that were made before, which are named by number. -/
inductive Operation where
  | new (rows cols : Int) (dtype : DType)
  | fromRows (rows : List (List Label)) (dtype : DType)
  | fromBools (values : List Bool)
  | column (dtype : DType) (values : List Label)
  | full (rows : Int) (row : List Label) (dtype : DType)
  | set (k : Nat) (i j : Int) (v : Label)
  | clone (k : Nat)
  | asType (k : Nat) (dtype : DType)
  | map (k : Nat) (dtype : DType) (f : Label → Label)
  | reduceRows (k : Nat) (dtype : DType) (f : List Label → Label)
  | slice (k : Nat) (low high : Int)
  | concat (ks : List Nat)
  | gather (k : Nat) (idx : List Int)
  | repeatRows (k : Nat) (counts : List Int)
  | zip (k l : Nat) (dtype : DType) (f : Label → Label → Label)
  | stack (ks : List Nat)
  | segmentReduce (k : Nat) (index : List Int) (dtype : DType) (init : Label) (f : Label → Label → Label)
  | scatterReduce (k : Nat) (target : List Int) (rows : Int) (dtype : DType) (init empty : Label) (f : Label → Label → Label)

/-- The tensors of some numbers, as far as there are any. -/
def chosen (ts : List Tensor) (ks : List Nat) : List Tensor :=
  ks.filterMap fun k => ts[k]?

namespace Operation

/-- What an operation gives. -/
def result (ts : List Tensor) : Operation → Except Failure Tensor
  | new rows cols dtype => zeros rows cols dtype
  | fromRows rows dtype => Tensor.fromRows rows dtype
  | fromBools values => .ok (Tensor.fromBools values)
  | column dtype values => .ok (Tensor.column dtype values)
  | full rows row dtype => orAborted (full? rows row dtype)
  | set k i j v => orAborted ts[k]? >>= fun x => orAborted (x.set? i j v)
  | clone k => orAborted ts[k]?
  | asType k dtype => orAborted ts[k]? >>= fun x => .ok (x.asType dtype)
  | map k dtype f => orAborted ts[k]? >>= fun x => .ok (x.map dtype f)
  | reduceRows k dtype f => orAborted ts[k]? >>= fun x => orAborted (x.reduceRows? dtype f)
  | slice k low high => orAborted ts[k]? >>= fun x => x.slice low high
  | concat ks => Tensor.concat (chosen ts ks)
  | gather k idx => orAborted ts[k]? >>= fun x => x.gather idx
  | repeatRows k counts => orAborted ts[k]? >>= fun x => x.repeatRows counts
  | zip k l dtype f => orAborted ts[k]? >>= fun a => orAborted ts[l]? >>= fun b => Tensor.zip a b dtype f
  | stack ks => Tensor.stack (chosen ts ks)
  | segmentReduce k index dtype init f => orAborted ts[k]? >>= fun x => x.segmentReduce index dtype init f
  | scatterReduce k target rows dtype init empty f =>
    orAborted ts[k]? >>= fun x => x.scatterReduce target rows dtype init empty f

/-- The tensors after an operation: a label is set in place, every other tensor is a further one. -/
def step (ts : List Tensor) (op : Operation) : List Tensor :=
  match op.result ts with
  | .error _ => ts
  | .ok y =>
    match op with
    | set k _ _ _ => ts.set k y
    | _ => ts ++ [y]

/-- The shape that an operation calls for can be counted in words. The other operations give no more than they are given. -/
def Fits (ts : List Tensor) : Operation → Prop
  | new rows cols _ => Within rows cols
  | fromRows rows _ => ∀ r ∈ rows, Within rows.length r.length
  | fromBools values => Within values.length 1
  | column _ values => Within values.length 1
  | full rows row _ => Within rows row.length
  | concat ks => ∀ x ∈ chosen ts ks, Within x.rows ((chosen ts ks).map Tensor.cols).sum
  | gather k idx => ∀ x ∈ ts[k]?, Within idx.length x.cols
  | repeatRows k counts => ∀ x ∈ ts[k]?, Within counts.sum x.cols
  | stack ks => ∀ x ∈ chosen ts ks, Within ((chosen ts ks).map Tensor.rows).sum x.cols
  | scatterReduce k _ rows _ _ _ _ => ∀ x ∈ ts[k]?, Within rows x.cols
  | _ => True

/-- Nothing is repeated less than no times. A row with labels does not let itself be repeated so anyway, if the shape is counted as it
is. -/
def Guarded : Operation → Prop
  | full rows row _ => row = [] → 0 ≤ rows
  | _ => True

end Operation

/-- The tensors that a program makes, the first one first. -/
def run (ops : List Operation) : List Tensor :=
  ops.foldl Operation.step []

/-- Every operation that gives a tensor calls for a shape that can be counted in words. -/
def Counted (ts : List Tensor) : List Operation → Prop
  | [] => True
  | op :: ops => ((op.result ts).isOk = true → op.Fits ts) ∧ Counted (op.step ts) ops

namespace ProgramsAux

open ResultsAux

variable {ts : List Tensor}

/-- An operation on a tensor that was made before. -/
theorem operand_ok {k : Nat} {f : Tensor → Except Failure Tensor} {y : Tensor} (h : (orAborted ts[k]? >>= f) = .ok y) :
    ∃ x ∈ ts, x ∈ ts[k]? ∧ f x = .ok y := by
  obtain ⟨x, hx, hf⟩ := bind_ok h
  have hx := orAborted_ok hx
  exact ⟨x, List.mem_of_getElem? hx, hx, hf⟩

theorem sound_chosen (hts : ∀ x ∈ ts, x.Sound) (ks : List Nat) : ∀ x ∈ chosen ts ks, x.Sound := by
  intro x hx
  obtain ⟨k, -, hk⟩ := List.mem_filterMap.mp hx
  exact hts x (List.mem_of_getElem? hk)

/-- Every operation gives a sound tensor. -/
theorem sound_result (hts : ∀ x ∈ ts, x.Sound) {op : Operation} (hguard : op.Guarded) (hfits : op.Fits ts) {y : Tensor}
    (hy : op.result ts = .ok y) : y.Sound := by
  cases op with
  | new rows cols dtype => exact sound_zeros hy hfits
  | fromRows rows dtype => exact sound_fromRows hy hfits
  | fromBools values => exact Except.ok.inj hy ▸ sound_fromBools hfits
  | column dtype values => exact Except.ok.inj hy ▸ sound_columnOf hfits
  | full rows row dtype => exact sound_full (orAborted_ok hy) hguard hfits
  | set k i j v =>
    obtain ⟨x, hx, -, hy⟩ := operand_ok hy
    exact sound_set (hts x hx) (orAborted_ok hy)
  | clone k => exact hts y (List.mem_of_getElem? (orAborted_ok hy))
  | asType k dtype =>
    obtain ⟨x, hx, -, hy⟩ := operand_ok hy
    exact Except.ok.inj hy ▸ sound_map (hts x hx) id
  | map k dtype f =>
    obtain ⟨x, hx, -, hy⟩ := operand_ok hy
    exact Except.ok.inj hy ▸ sound_map (hts x hx) f
  | reduceRows k dtype f =>
    obtain ⟨x, hx, -, hy⟩ := operand_ok hy
    exact sound_reduceRows (hts x hx) (orAborted_ok hy)
  | slice k low high =>
    obtain ⟨x, hx, -, hy⟩ := operand_ok hy
    exact Settles.sound (settles_slice (hts x hx) low high) hy
  | concat ks => exact Settles.sound (settles_concat (sound_chosen hts ks) fun _ => hfits) hy
  | gather k idx =>
    obtain ⟨x, hx, hk, hy⟩ := operand_ok hy
    exact Settles.sound (settles_gather (hts x hx) (hfits x hk)) hy
  | repeatRows k counts =>
    obtain ⟨x, hx, hk, hy⟩ := operand_ok hy
    exact Settles.sound (settles_repeatRows (hts x hx) fun _ _ => hfits x hk) hy
  | zip k l dtype f =>
    obtain ⟨a, ha, -, hy⟩ := operand_ok hy
    obtain ⟨b, hb, -, hy⟩ := operand_ok hy
    exact sound_zip (hts a ha) (hts b hb) hy
  | stack ks => exact Settles.sound (settles_stack (sound_chosen hts ks) fun _ => hfits) hy
  | segmentReduce k index dtype init f =>
    obtain ⟨x, hx, -, hy⟩ := operand_ok hy
    exact sound_segmentReduce (hts x hx) hy
  | scatterReduce k target rows dtype init empty f =>
    obtain ⟨x, hx, hk, hy⟩ := operand_ok hy
    exact sound_scatterReduce (hts x hx) hy (hfits x hk)

/-- What one operation preserves. -/
theorem sound_step (hts : ∀ x ∈ ts, x.Sound) {op : Operation} (hguard : op.Guarded) (hfits : (op.result ts).isOk = true → op.Fits ts) :
    ∀ x ∈ op.step ts, x.Sound := by
  unfold Operation.step
  cases hy : op.result ts with
  | error e => exact hts
  | ok y =>
    have hsound : y.Sound := sound_result hts hguard (hfits (by rw [hy]; rfl)) hy
    intro x hx
    dsimp only at hx
    split at hx
    · rcases List.mem_or_eq_of_mem_set hx with hx | rfl
      · exact hts x hx
      · exact hsound
    · rcases List.mem_append.mp hx with hx | hx
      · exact hts x hx
      · exact List.mem_singleton.mp hx ▸ hsound

/-- What a program preserves. -/
theorem sound_foldl (hts : ∀ x ∈ ts, x.Sound) {ops : List Operation} (hguard : ∀ op ∈ ops, op.Guarded) (hcounted : Counted ts ops) :
    ∀ x ∈ ops.foldl Operation.step ts, x.Sound := by
  induction ops generalizing ts with
  | nil => exact hts
  | cons op ops ih =>
    obtain ⟨hop, hops⟩ := List.forall_mem_cons.mp hguard
    exact ih (sound_step hts hop hcounted.1) hops hcounted.2

end ProgramsAux

open ProgramsAux ResultsAux

/-- Every tensor that a program makes, whatever functions it is given, has as many labels as its shape calls for, and its truth values
are 0 and 1. On these tensors the operations that put rows together fail exactly if what they are given does not go together, or there
is no room for the labels. -/
theorem run_proper {ops : List Operation} (hguard : ∀ op ∈ ops, op.Guarded) (hcounted : Counted [] ops) :
    (∀ x ∈ run ops, x.Proper) ∧
    (∀ x ∈ run ops, ∀ idx : List Int, Within idx.length x.cols →
      Settles "gather" (∀ i ∈ idx, 0 ≤ i ∧ i < x.rows) (idx.length * x.cols ≤ capacity) (x.gather idx)) ∧
    (∀ x ∈ run ops, ∀ counts : List Int, ((counts.length : Int) = x.rows → (∀ c ∈ counts, 0 ≤ c) → Within counts.sum x.cols) →
      Settles "repeat" ((counts.length : Int) = x.rows ∧ ∀ c ∈ counts, 0 ≤ c) (counts.sum * x.cols ≤ capacity) (x.repeatRows counts)) ∧
    (∀ x ∈ run ops, ∀ low high : Int,
      Settles "slice" (0 ≤ low ∧ low ≤ high ∧ high ≤ x.cols) True (x.slice low high)) ∧
    (∀ us : List Tensor, (∀ u ∈ us, u ∈ run ops) →
      ((∀ u ∈ us, ∀ u' ∈ us, u.rows = u'.rows) → ∀ u ∈ us, Within u.rows (us.map Tensor.cols).sum) →
      Settles "concat" (us ≠ [] ∧ ∀ u ∈ us, ∀ u' ∈ us, u.rows = u'.rows) (∀ u ∈ us, u.rows * (us.map Tensor.cols).sum ≤ capacity)
        (concat us)) ∧
    ∀ us : List Tensor, (∀ u ∈ us, u ∈ run ops) →
      ((∀ u ∈ us, ∀ u' ∈ us, u.cols = u'.cols) → ∀ u ∈ us, Within (us.map Tensor.rows).sum u.cols) →
      Settles "stack" (us ≠ [] ∧ ∀ u ∈ us, ∀ u' ∈ us, u.cols = u'.cols) (∀ u ∈ us, (us.map Tensor.rows).sum * u.cols ≤ capacity)
        (stack us) := by
  have hsound : ∀ x ∈ run ops, x.Sound := sound_foldl (List.forall_mem_nil _) hguard hcounted
  refine ⟨fun x hx => (hsound x hx).proper, fun x hx _ hin => ?_, fun x hx _ hin => ?_, fun x hx low high => ?_, fun us hus hin => ?_,
    fun us hus hin => ?_⟩
  · exact settles_gather (hsound x hx) hin
  · exact settles_repeatRows (hsound x hx) hin
  · exact settles_slice (hsound x hx) low high
  · exact settles_concat (fun u hu => hsound u (hus u hu)) hin
  · exact settles_stack (fun u hu => hsound u (hus u hu)) hin

namespace Sample

/-- Two rows of labels, their truth values, and both on top of one another. -/
def program : List Operation :=
  [.fromRows [[Label.one, Label.zero], [Label.zero, Label.zero]] .float64, .asType 0 .bool, .stack [0, 1]]

end Sample

theorem run_proper_sample : (∀ op ∈ Sample.program, op.Guarded) ∧ Counted [] Sample.program ∧ (run Sample.program).length = 3 ∧
    ∀ x ∈ run Sample.program, x.Proper := by
  have hguard : ∀ op ∈ Sample.program, op.Guarded := by
    simp [Sample.program, Operation.Guarded]
  have hstack : ∀ x ∈ chosen (run (Sample.program.take 2)) [0, 1],
      Within ((chosen (run (Sample.program.take 2)) [0, 1]).map rows).sum x.cols := by
    decide +kernel
  have hcounted : Counted [] Sample.program := by
    refine ⟨fun _ => ?_, fun _ => trivial, fun _ => hstack, trivial⟩
    show ∀ r ∈ [[Label.one, Label.zero], [Label.zero, Label.zero]], Within (2 : Nat) (r : List Label).length
    decide
  exact ⟨hguard, hcounted, by decide +kernel, (run_proper hguard hcounted).1⟩

/-- A row without labels lets itself be repeated less than no times, which is no tensor; and a label is not repeated as often as can be
counted, although nothing speaks against it but the room. -/
theorem run_without_guard :
    (Counted [] [.full (-1) [] .float64] ∧ ¬∀ x ∈ run [.full (-1) [] .float64], x.Proper) ∧
    Counted [] [.fromRows [[Label.one]] .float64] ∧ ∃ x ∈ run [.fromRows [[Label.one]] .float64], Within [2 ^ 46].sum x.cols ∧
      ¬((∃ e, x.repeatRows [2 ^ 46] = .error e) ↔
        ¬((([2 ^ 46] : List Int).length : Int) = x.rows ∧ ∀ c ∈ ([2 ^ 46] : List Int), 0 ≤ c)) := by
  refine ⟨⟨⟨fun _ => ?_, trivial⟩, fun h => ?_⟩, ⟨fun _ => ?_, trivial⟩, ofRows 1 .float64 [[Label.one]], ?_, ?_, fun h => ?_⟩
  · show Within (-1) ([] : List Label).length
    decide
  · have hmade : (⟨-1, 0, .float64, #[]⟩ : Tensor) ∈ run [.full (-1) [] .float64] := by decide +kernel
    exact absurd (h _ hmade).1.1 (by decide)
  · show ∀ r ∈ [[Label.one]], Within (1 : Nat) (r : List Label).length
    decide
  · decide +kernel
  · decide
  · exact h.mp ⟨.aborted, rfl⟩ (by decide)

end Tensor

end ModalGraph
