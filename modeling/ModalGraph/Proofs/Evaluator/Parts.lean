import ModalGraph.Proofs.Compiler.Ledger
import ModalGraph.Proofs.Evaluator.Meaning
import ModalGraph.Proofs.Operator.Diamond

/-!
# Meanings part by part

Graphs that are put together into a batch do not see each other: messages stay in their graph, and pooling folds the rows of each graph
by themselves. So what a formula gives on the batch is what it gives on the graphs, put together. A fixpoint goes on for the whole
batch until it has settled on every graph; on a graph where it has settled before, more turns change nothing, since over truth values
labels that are equal are the same labels.
-/

namespace ModalGraph

open Formula Tensor

section

variable {ι : Type} {is : List ι} {n k : ι → Nat}

/-- A tensor put together from one tensor for each part. -/
def Stacks (is : List ι) (n : ι → Nat) (w : Nat) (d : DType) (xs : ι → Tensor) (x : Tensor) : Prop :=
  ∃ rows : ι → List (List Label), (∀ i ∈ is, (xs i).HasRows (n i) w d (rows i)) ∧ x.HasRows (is.map n).sum w d (is.flatMap rows)

/-- A result that is there, and put together from those of the parts, if all parts have one. -/
def Follows (is : List ι) (n : ι → Nat) (w : Nat) (d : DType) (ys : ι → Except Failure Tensor) (y : Except Failure Tensor) : Prop :=
  ∀ xs : ι → Tensor, (∀ i ∈ is, ys i = .ok (xs i)) → ∃ x, y = .ok x ∧ Stacks is n w d xs x

/-- Settings for batches instead of single graphs. -/
def Settings.forBatches (settings : Settings) : Settings :=
  { settings with input := { settings.input with batched := true } }

theorem Settings.faults_forBatches (settings : Settings) : settings.forBatches.faults = settings.faults :=
  rfl

namespace Formula.Expr

mutual

/-- Formulas are as wide on batches as on single graphs. -/
theorem width_forBatches (ops : Registries) (settings : Settings) : ∀ (e : Expr) (ρ : List (Bytes × Nat)) (w : Nat),
    e.width ops settings.forBatches ρ w = e.width ops settings ρ w
  | .atom .., _, _ => rfl
  | .seq _ left right, ρ, w => by rw [width, width, width_forBatches ops settings left, width_forBatches ops settings right]
  | .par _ children, ρ, w => totalWidth_forBatches ops settings children ρ w
  | .diamond .., _, _ => rfl
  | .fix .., _, _ => rfl
  | .var .., _, _ => rfl
  | .hole, _, _ => rfl

theorem totalWidth_forBatches (ops : Registries) (settings : Settings) : ∀ (es : List Expr) (ρ : List (Bytes × Nat)) (w : Nat),
    totalWidth ops settings.forBatches ρ w es = totalWidth ops settings ρ w es
  | [], _, _ => rfl
  | e :: es, ρ, w => by rw [totalWidth, totalWidth, width_forBatches ops settings e, totalWidth_forBatches ops settings es]

end

end Formula.Expr

/-- Scenes of single graphs, and the scene of all of them together. -/
structure Assembled (settings : Settings) (is : List ι) (t : ι → Scene) (s : Scene) (n k : ι → Nat) (de : DType)
    (E : ι → List (List Label)) : Prop where
  nonempty : is ≠ []
  ops : s.ops = Builtin.registries ∧ ∀ i ∈ is, (t i).ops = Builtin.registries
  settings_eq : s.settings = settings.forBatches ∧ ∀ i ∈ is, (t i).settings = settings
  limits : ∀ i ∈ is, (t i).maxIterations = s.maxIterations
  nodes : s.nodes = (is.map n).sum ∧ ∀ i ∈ is, (t i).nodes = n i
  single : ∀ i ∈ is, (t i).input.index = none
  index : ∃ index, s.input.index = some index ∧ index.length = (is.map n).sum ∧
    segmentCounts index = .ok (is.flatMap fun i => oneGraph (n i))
  wired : settings.input.adjacency = true →
    s.Wired (is.map n).sum (is.map k).sum settings.input.edge.isSome settings.edgeWidth de (is.flatMap E) ∧
      ∀ i ∈ is, (t i).Wired (n i) (k i) settings.input.edge.isSome settings.edgeWidth de (E i)
  ends : ∀ direction, (s.ends direction).1 = shifted (is.map fun i => (n i, ((t i).ends direction).1)) ∧
    (s.ends direction).2 = shifted (is.map fun i => (n i, ((t i).ends direction).2))

theorem le_sum_map {i : ι} (hi : i ∈ is) : n i ≤ (is.map n).sum := by
  induction is with
  | nil => cases hi
  | cons j is ih =>
    rw [List.map_cons, List.sum_cons]
    rcases List.mem_cons.mp hi with rfl | hi
    · exact Nat.le_add_right _ _
    · exact Nat.le_trans (ih hi) (Nat.le_add_left _ _)

theorem Stacks.hasRows {w : Nat} {d : DType} {rows : ι → List (List Label)}
    (h : ∀ i ∈ is, (ofRows w d (rows i)).HasRows (n i) w d (rows i)) :
    Stacks is n w d (fun i => ofRows w d (rows i)) (ofRows w d (is.flatMap rows)) :=
  ⟨rows, h, hasRows_flatMap h⟩

theorem Stacks.congr {w : Nat} {d : DType} {xs ys : ι → Tensor} {x : Tensor} (h : Stacks is n w d xs x)
    (heq : ∀ i ∈ is, ys i = xs i) : Stacks is n w d ys x := by
  obtain ⟨rows, hrows, hx⟩ := h
  exact ⟨rows, fun i hi => (heq i hi).symm ▸ hrows i hi, hx⟩

/-- Parts that fail are not followed by anything. -/
theorem follows_of_error (hne : is ≠ []) {w : Nat} {d : DType} {ys : ι → Except Failure Tensor} {y : Except Failure Tensor}
    (h : ∀ i ∈ is, ∃ f, ys i = .error f) : Follows is n w d ys y := by
  intro xs hxs
  obtain ⟨i, hi⟩ := List.exists_mem_of_ne_nil is hne
  obtain ⟨f, hf⟩ := h i hi
  cases hf.symm.trans (hxs i hi)

/-- Two steps, one after the other. -/
theorem Follows.bind {w w' : Nat} {d d' : DType} {ys : ι → Except Failure Tensor} {y : Except Failure Tensor}
    {f : ι → Tensor → Except Failure Tensor} {g : Tensor → Except Failure Tensor} (h : Follows is n w d ys y)
    (hf : ∀ xs x, Stacks is n w d xs x → Follows is n w' d' (fun i => f i (xs i)) (g x)) :
    Follows is n w' d' (fun i => ys i >>= f i) (y >>= g) := by
  intro outs houts
  have hparts : ∀ i ∈ is, ∃ a, ys i = .ok a ∧ f i a = .ok (outs i) := fun i hi => bind_ok (houts i hi)
  choose! xs hxs hfs using hparts
  obtain ⟨x, hx, hstacks⟩ := h xs hxs
  rw [hx]
  exact hf xs x hstacks outs hfs

/-! ## Operators -/

variable {settings : Settings} {t : ι → Scene} {s : Scene} {de : DType} {E : ι → List (List Label)}

/-- A psi on parts and on the whole. -/
theorem atom_follows (hs : Assembled settings is t s n k de E) (name : Bytes) (arg : Argument) {w : Nat} {d : DType}
    {xs : ι → Tensor} {x : Tensor} (hx : Stacks is n w d xs x) {psi : Psi} (hget : Builtin.psi.get name arg = .ok psi)
    (hstore : Storable (is.map n).sum (psi.width w).toNat) :
    Follows is n (psi.width w).toNat (psiDomain name arg d) (fun i => (t i).atom name arg (xs i)) (s.atom name arg x) := by
  obtain ⟨rows, hrows, hwhole⟩ := hx
  have hatom : ∀ i ∈ is, (t i).atom name arg (xs i) = (psi.single (some (xs i)) >>= (t i).rowPerNode) := by
    intro i hi
    have hbatched : (t i).input.isBatched = false := by rw [Input.isBatched, hs.single i hi]; rfl
    rw [Scene.atom, hs.ops.2 i hi, show Builtin.registries.psi.get name arg = .ok psi from hget, hbatched]
    rfl
  rcases psi_acts hget w d with hfails | ⟨F, hF⟩
  · refine follows_of_error hs.nonempty fun i hi => ?_
    obtain ⟨f, hf⟩ := hfails _ _ _ (hrows i hi)
    exact ⟨f, by rw [hatom i hi, hf]; rfl⟩
  · intro outs houts
    generalize (psi.width w).toNat = w' at hF hstore ⊢
    generalize psiDomain name arg d = d' at hF ⊢
    have hparts : ∀ i ∈ is, outs i = ofRows w' d' (F (oneGraph (n i)) (rows i)) := by
      intro i hi
      obtain ⟨y, hy, hrow⟩ := bind_ok ((hatom i hi).symm.trans (houts i hi))
      obtain rfl := hF.single (hrows i hi) (hstore.mono (le_sum_map hi)) hy
      rw [Scene.rowPerNode] at hrow
      split at hrow
      · exact (Except.ok.inj hrow).symm
      · cases hrow
    have hflat := hF.toPartwise.flatMap fun i hi => (sum_oneGraph (n i)).trans (hrows i hi).length.symm
    have hstacks := Stacks.hasRows fun i hi => hF.toPartwise.hasRows (hrows i hi) (sum_oneGraph (n i))
    obtain ⟨index, hindex, hlen, hcounts⟩ := hs.index
    refine ⟨_, ?_, hstacks.congr hparts⟩
    have hbatched : s.input.isBatched = true := by rw [Input.isBatched, hindex]; rfl
    rw [Scene.atom, hs.ops.1, show Builtin.registries.psi.get name arg = .ok psi from hget, hbatched, hindex]
    show (psi.multiple (some x) (some index) >>= s.rowPerNode) = _
    rw [hF.multiple hwhole hstore hlen hcounts, hflat]
    show s.rowPerNode (some _) = _
    obtain ⟨_, _, hall⟩ := hstacks
    rw [Scene.rowPerNode, if_pos (hall.shaped.rows_eq.trans hs.nodes.1.symm)]

/-- A diamond on parts and on the whole. -/
theorem diamond_follows (hs : Assembled settings is t s n k de E) (hadjacency : settings.input.adjacency = true)
    (direction : Direction) {phi : Option Bytes} {sigma : Bytes} (hphi : ∀ key ∈ phi, ∃ op, Builtin.phi.resolve key = .ok op)
    (hsigma : ∃ op, Builtin.sigma.resolve sigma = .ok op) {w : Nat} {d : DType} {xs : ι → Tensor} {x : Tensor}
    (hx : Stacks is n w d xs x) (hsend : Sendable (is.map n).sum (is.map k).sum w (phiWidth settings.edgeWidth w phi)) :
    Follows is n (phiWidth settings.edgeWidth w phi) (sigmaDomain sigma (phiDomain de d phi))
      (fun i => (t i).diamond direction phi sigma (xs i)) (s.diamond direction phi sigma x) := by
  obtain ⟨rows, hrows, hwhole⟩ := hx
  obtain ⟨hwired, hparts⟩ := hs.wired hadjacency
  have hsends' := fun i hi => hsend.mono (le_sum_map (i := i) hi) (le_sum_map hi)
  rcases diamond_acts direction settings.input.edge.isSome w settings.edgeWidth d de hphi hsigma with hfails | ⟨M, g, hsends, hg, hdiamond⟩
  · exact follows_of_error hs.nonempty fun i hi => hfails (hparts i hi) (hrows i hi) (hsends' i hi)
  · intro outs houts
    generalize phiWidth settings.edgeWidth w phi = wm at hsends hg hdiamond hsend hsends' ⊢
    generalize sigmaDomain sigma (phiDomain de d phi) = d' at hg hdiamond ⊢
    -- The rows that arrive are those of the parts, one part after the other.
    have hstart : s.startRows direction (is.flatMap rows) = is.flatMap fun i => (t i).startRows direction (rows i) := by
      rw [Scene.startRows, (hs.ends direction).1]
      exact picked_flatMap fun i hi => ⟨(hrows i hi).length, (Scene.origins (hparts i hi).joined direction).1⟩
    have hgoal : s.goalRows direction (is.flatMap rows) = is.flatMap fun i => (t i).goalRows direction (rows i) := by
      rw [Scene.goalRows, (hs.ends direction).2]
      exact picked_flatMap fun i hi => ⟨(hrows i hi).length, (Scene.goals (hparts i hi).joined direction).1⟩
    have hm := fun i hi => hsends.hasRows (hparts i hi) (hrows i hi) direction
    have hmessages : M (s.startRows direction (is.flatMap rows)) (is.flatMap E) (s.goalRows direction (is.flatMap rows)) =
        is.flatMap fun i => M ((t i).startRows direction (rows i)) (E i) ((t i).goalRows direction (rows i)) := by
      rw [hstart, hgoal]
      refine hsends.flatMap fun i hi => ?_
      have hlen := ((hparts i hi).goalRows (hrows i hi) direction).length
      refine ⟨((hparts i hi).startRows (hrows i hi) direction).length.trans hlen.symm, ?_⟩
      intro hlabelled
      have hlabels := (hparts i hi).labels
      rw [hlabelled] at hlabels
      obtain ⟨e, _, he⟩ := hlabels
      exact he.length.trans hlen.symm
    have houts' : ∀ i ∈ is, outs i = ofRows wm d' (scattered g (n i) ((t i).ends direction).2
        (M ((t i).startRows direction (rows i)) (E i) ((t i).goalRows direction (rows i)))) := by
      intro i hi
      have hout : (t i).diamond direction phi sigma (xs i) = .ok (outs i) := houts i hi
      rw [hdiamond (hparts i hi) (hrows i hi) (hsends' i hi)] at hout
      exact (Except.ok.inj hout).symm
    refine ⟨_, hdiamond hwired hwhole hsend, ?_⟩
    rw [hmessages, (hs.ends direction).2, scattered_flatMap g fun i hi => ?_]
    · exact (Stacks.hasRows fun i hi => hg.scattered (hm i hi) (n i) ((t i).ends direction).2).congr houts'
    · obtain ⟨hin, hlen⟩ := Scene.goals (hparts i hi).joined direction
      exact ⟨(hlen.trans (hparts i hi).edges_eq).trans (hm i hi).length.symm, hin⟩

/-! ## Side by side -/

/-- What one of several formulas gives: labels of one width and domain, and their rows in each part. -/
structure Block (ι : Type) where
  width : Nat
  dtype : DType
  rows : ι → List (List Label)

/-- The labels in a part. -/
def Block.part (b : Block ι) (i : ι) : Tensor :=
  ofRows b.width b.dtype (b.rows i)

/-- The labels in all parts. -/
def Block.whole (b : Block ι) (is : List ι) : Tensor :=
  ofRows b.width b.dtype (is.flatMap b.rows)

/-- Results of several formulas that are there, and put together from those of the parts, if all parts have them. -/
def FollowAll (is : List ι) (n : ι → Nat) (w : Nat) (ds : List DType) (ys : ι → Except Failure (List Tensor))
    (y : Except Failure (List Tensor)) : Prop :=
  ∀ xs : ι → List Tensor, (∀ i ∈ is, ys i = .ok (xs i)) → ∃ bs : List (Block ι), (∀ i ∈ is, xs i = bs.map fun b => b.part i) ∧
    y = .ok (bs.map fun b => b.whole is) ∧ (∀ b ∈ bs, ∀ i ∈ is, (b.part i).HasRows (n i) b.width b.dtype (b.rows i)) ∧
      (bs.map Block.width).sum = w ∧ bs.map Block.dtype = ds

/-- The results of one formula and of several more. -/
theorem FollowAll.cons {w w' : Nat} {d : DType} {ds : List DType} {ys : ι → Except Failure Tensor} {y : Except Failure Tensor}
    {yss : ι → Except Failure (List Tensor)} {ys' : Except Failure (List Tensor)} (h : Follows is n w d ys y)
    (hs : FollowAll is n w' ds yss ys') :
    FollowAll is n (w + w') (d :: ds) (fun i => do return (← ys i) :: (← yss i)) (do return (← y) :: (← ys')) := by
  intro outs houts
  have hparts : ∀ i ∈ is, ∃ a, ys i = .ok a ∧ ∃ as, yss i = .ok as ∧ a :: as = outs i := by
    intro i hi
    obtain ⟨a, ha, hrest⟩ := bind_ok (houts i hi)
    obtain ⟨as, has, hout⟩ := bind_ok hrest
    exact ⟨a, ha, as, has, Except.ok.inj hout⟩
  choose! a ha as has hout using hparts
  obtain ⟨x, rfl, rows, hrows, hwhole⟩ := h a ha
  obtain ⟨bs, hbs, rfl, hall, rfl, rfl⟩ := hs as has
  refine ⟨⟨w, d, rows⟩ :: bs, fun i hi => ?_, ?_, List.forall_mem_cons.mpr ⟨fun i hi => ?_, hall⟩, rfl, rfl⟩
  · rw [← hout i hi, hbs i hi, (hrows i hi).eq]
    rfl
  · rw [hwhole.eq]
    rfl
  · rw [Block.part, ← (hrows i hi).eq]
    exact hrows i hi

theorem join_eq_bool {d : DType} {ds : List DType} (h : d.join ds = .bool) : ∀ d' ∈ d :: ds, d' = .bool := by
  rw [DType.join] at h
  split at h
  · rename_i hall
    subst h
    refine List.forall_mem_cons.mpr ⟨rfl, fun d' hd' => ?_⟩
    exact beq_iff_eq.mp (List.all_eq_true.mp hall d' hd')
  · cases h

/-- Labels side by side. -/
theorem FollowAll.concat (hne : is ≠ []) {w : Nat} {ds : List DType} {ys : ι → Except Failure (List Tensor)}
    {y : Except Failure (List Tensor)} (h : FollowAll is n w ds ys y) (hstore : Storable (is.map n).sum w) (hwidth : w < 2 ^ 63) :
    Follows is n w (ds.headD .float64 |>.join ds.tail) (fun i => ys i >>= Tensor.concat) (y >>= Tensor.concat) := by
  intro outs houts
  have hparts : ∀ i ∈ is, ∃ a, ys i = .ok a ∧ Tensor.concat a = .ok (outs i) := fun i hi => bind_ok (houts i hi)
  choose! xs hxs hconcat using hparts
  obtain ⟨bs, hbs, rfl, hrows, rfl, rfl⟩ := h xs hxs
  cases bs with
  | nil =>
    obtain ⟨i, hi⟩ := List.exists_mem_of_ne_nil is hne
    have hout := hconcat i hi
    rw [hbs i hi] at hout
    cases hout
  | cons b bs =>
    have hwhole : ∀ c ∈ b :: bs, (c.whole is).HasRows (is.map n).sum c.width c.dtype (is.flatMap c.rows) :=
      fun c hc => hasRows_flatMap (hrows c hc)
    have hall := concat_hasRows hwhole hstore hwidth
    have hparts : ∀ i ∈ is, outs i = ofRows ((b :: bs).map Block.width).sum (b.dtype.join (bs.map Block.dtype))
        (glued (n i) ((b :: bs).map fun c => c.rows i)) := by
      intro i hi
      have hout := concat_hasRows (fun c hc => hrows c hc i hi) (hstore.mono (le_sum_map hi)) hwidth
      rw [← hbs i hi, hconcat i hi] at hout
      exact Except.ok.inj hout
    have hexact : b.dtype.join (bs.map Block.dtype) = .bool → ∀ c ∈ b :: bs, c.dtype = .bool :=
      fun hbool c hc => join_eq_bool hbool _ (List.mem_map_of_mem hc)
    refine ⟨_, hall, ?_⟩
    rw [glued_flatMap (b :: bs) is fun i hi c hc => (hrows c hc i hi).length]
    refine (Stacks.hasRows fun i hi => ?_).congr hparts
    exact hasRows_ofRows (length_glued _ _) (width_glued fun c hc => hrows c hc i hi)
      (exact_glued (fun c hc => hrows c hc i hi) hexact)

/-! ## Fixpoints -/

/-- A fixpoint that settles does so with more turns as well. -/
theorem settle_mono {l l' : Nat} {f : Tensor → Except Failure Tensor} {m r : Nat} {x y : Tensor} (h : settle l f m x = .ok y)
    (hle : m ≤ r) : settle l' f r x = .ok y := by
  induction m generalizing r x with
  | zero => cases h
  | succ m ih =>
    obtain ⟨r, rfl⟩ : ∃ k, r = k + 1 := ⟨r - 1, by omega⟩
    rw [settle] at h ⊢
    obtain ⟨next, hnext, h⟩ := bind_ok h
    rw [hnext]
    show (if next.equal x = true then _ else _) = _
    split at h
    · rename_i hequal
      rw [if_pos hequal]
      exact h
    · rename_i hequal
      rw [if_neg hequal]
      exact ih h (by omega)

/-- Rows put together are equal if they are so in all parts. -/
theorem flatMap_inj {α : Type} {a b : ι → List α} (hlen : ∀ i ∈ is, (a i).length = (b i).length)
    (h : is.flatMap a = is.flatMap b) : ∀ i ∈ is, a i = b i := by
  induction is with
  | nil => exact nofun
  | cons j is ih =>
    rw [List.flatMap_cons, List.flatMap_cons] at h
    obtain ⟨hj, hrest⟩ := List.append_inj h (hlen j List.mem_cons_self)
    exact List.forall_mem_cons.mpr ⟨hj, ih (fun i hi => hlen i (List.mem_cons_of_mem _ hi)) hrest⟩

/-- Truth values that are equal in all parts, and only these, are equal as a whole. -/
theorem Stacks.equal_iff {w : Nat} {xs ys : ι → Tensor} {x y : Tensor} (hx : Stacks is n w .bool xs x)
    (hy : Stacks is n w .bool ys y) : y.equal x = true ↔ ∀ i ∈ is, (ys i).equal (xs i) = true := by
  obtain ⟨a, ha, hwhole⟩ := hx
  obtain ⟨b, hb, hwhole'⟩ := hy
  rw [hwhole'.equal_iff hwhole]
  constructor
  · intro h i hi
    rw [(hb i hi).equal_iff (ha i hi)]
    exact flatMap_inj (fun i hi => (hb i hi).length.trans (ha i hi).length.symm) h i hi
  · exact fun h => List.flatMap_congr fun i hi => ((hb i hi).equal_iff (ha i hi)).mp (h i hi)

/-- Truth values that are equal are the same. -/
theorem Stacks.eq_of_equal {w : Nat} {xs ys : ι → Tensor} {x y : Tensor} (hx : Stacks is n w .bool xs x)
    (hy : Stacks is n w .bool ys y) {i : ι} (hi : i ∈ is) (h : (ys i).equal (xs i) = true) : ys i = xs i := by
  obtain ⟨a, ha, _⟩ := hx
  obtain ⟨b, hb, _⟩ := hy
  rw [(hb i hi).eq, (ha i hi).eq, ((hb i hi).equal_iff (ha i hi)).mp h]

/-- A fixpoint over truth values settles on the whole if it settles on all parts. -/
theorem settle_follows (hne : is ≠ []) {w : Nat} {f : ι → Tensor → Except Failure Tensor} {g : Tensor → Except Failure Tensor}
    (hbody : ∀ xs x, Stacks is n w .bool xs x → Follows is n w .bool (fun i => f i (xs i)) (g x)) (l : Nat) (r : Nat) :
    ∀ xs x, Stacks is n w .bool xs x → Follows is n w .bool (fun i => settle l (f i) r (xs i)) (settle l g r x) := by
  induction r with
  | zero => exact fun xs x _ => follows_of_error hne fun i _ => ⟨_, rfl⟩
  | succ r ih =>
    intro xs x hx outs houts
    have hturn : ∀ i ∈ is, ∃ next, f i (xs i) = .ok next ∧
        (if next.equal (xs i) = true then .ok (xs i) else settle l (f i) r next) = .ok (outs i) :=
      fun i hi => bind_ok (houts i hi)
    choose! next hnext hrest using hturn
    obtain ⟨y, hy, hstacks⟩ := hbody xs x hx next hnext
    rw [settle, hy]
    show ∃ z, (if y.equal x = true then .ok x else settle l g r y) = .ok z ∧ _
    by_cases hall : y.equal x = true
    · rw [if_pos hall]
      refine ⟨x, rfl, hx.congr fun i hi => ?_⟩
      have hout := hrest i hi
      rw [if_pos ((hx.equal_iff hstacks).mp hall i hi)] at hout
      exact (Except.ok.inj hout).symm
    · rw [if_neg hall]
      refine ih next y hstacks outs fun i hi => ?_
      show settle l (f i) r (next i) = .ok (outs i)
      -- Some part has not settled, so that there are turns left; a part that has settled stands still in them.
      obtain ⟨j, hj, hmoves⟩ : ∃ j ∈ is, (next j).equal (xs j) ≠ true := by
        by_contra hnone
        refine hall ((hx.equal_iff hstacks).mpr fun j hj => ?_)
        by_contra hmoves
        exact hnone ⟨j, hj, hmoves⟩
      have hleft := hrest j hj
      rw [if_neg hmoves] at hleft
      by_cases hequal : (next i).equal (xs i) = true
      · have hout := hrest i hi
        rw [if_pos hequal] at hout
        have hstays : next i = xs i := hx.eq_of_equal hstacks hi hequal
        cases r with
        | zero => cases hleft
        | succ r =>
          rw [hstays] at hequal ⊢
          rw [settle, hnext i hi, hstays]
          show (if (xs i).equal (xs i) = true then Except.ok (xs i) else _) = _
          rw [if_pos hequal, hout]
      · have hout := hrest i hi
        rwa [if_neg hequal] at hout

/-- Labels of the shape of an assignment. -/
theorem assigned_follows (hs : Assembled settings is t s n k de E) {w width : Nat} {f : ι → Tensor → Except Failure Tensor}
    {g : Tensor → Except Failure Tensor} {xs : ι → Tensor} {x : Tensor} (h : Follows is n w .bool (fun i => f i (xs i)) (g x)) :
    Follows is n width .bool (fun i => (t i).assigned width (f i) (xs i)) (s.assigned width g x) := by
  intro outs houts
  have hparts : ∀ i ∈ is, f i (xs i) = .ok (outs i) ∧ (outs i).cols = width := by
    intro i hi
    obtain ⟨next, hnext, hout⟩ := bind_ok (houts i hi)
    split at hout
    · rename_i hshape
      obtain rfl := Except.ok.inj hout
      exact ⟨hnext, hshape.2⟩
    · cases hout
  obtain ⟨y, hy, rows, hrows, hwhole⟩ := h outs fun i hi => (hparts i hi).1
  obtain ⟨i, hi⟩ := List.exists_mem_of_ne_nil is hs.nonempty
  obtain rfl : w = width := by exact_mod_cast (hrows i hi).shaped.cols_eq.symm.trans (hparts i hi).2
  refine ⟨y, ?_, rows, hrows, hwhole⟩
  rw [Scene.assigned, hy]
  show (if y.rows = s.nodes ∧ y.cols = w then Except.ok y else _) = _
  rw [if_pos ⟨hwhole.shaped.rows_eq.trans hs.nodes.1.symm, hwhole.shaped.cols_eq⟩]

/-- The same row everywhere. -/
theorem full_stacks (is : List ι) (n : ι → Nat) (row : List Label) (d : DType) :
    Stacks is n row.length d (fun i => Tensor.full (n i) row d) (Tensor.full (is.map n).sum row d) := by
  have hflat : ∀ js : List ι, js.flatMap (fun i => List.replicate (n i) (row.map d.cast)) =
      List.replicate (js.map n).sum (row.map d.cast) := by
    intro js
    induction js with
    | nil => rfl
    | cons j js ih => rw [List.flatMap_cons, ih, List.map_cons, List.sum_cons, List.replicate_add]
  simp only [Tensor.full_natCast]
  rw [← hflat]
  refine Stacks.hasRows fun i _ => hasRows_ofRows List.length_replicate (fun r hr => ?_) (exact_of_cast fun r hr => ?_)
  · rw [List.eq_of_mem_replicate hr, List.length_map]
  · exact ⟨row, List.eq_of_mem_replicate hr⟩

/-- On a part a fixpoint does not take more turns than on the whole. -/
theorem limit_le (hs : Assembled settings is t s n k de E) {i : ι} (hi : i ∈ is) {w : Nat} (hstore : Storable (is.map n).sum w) :
    (t i).limit w ≤ s.limit w := by
  rw [Scene.limit, Scene.limit, hs.limits i hi, hs.nodes.1, hs.nodes.2 i hi, word_succ hstore, word_succ (hstore.mono (le_sum_map hi))]
  split
  · exact Nat.le_refl _
  · exact max_le_max (Nat.le_refl _) (Nat.succ_le_succ (Nat.mul_le_mul_right w (le_sum_map hi)))

/-- A fixpoint over truth values on parts and on the whole. -/
theorem fixpoint_follows (hs : Assembled settings is t s n k de E) {least : Bool} {name : Bytes} {b : Base} {row : List Label}
    (hbase : settings.base? name = some b) (hrow : b.init least = .ok row) (hbool : b.dtype = .bool) {w : Nat}
    {f : ι → Tensor → Except Failure Tensor} {g : Tensor → Except Failure Tensor}
    (hstore : Storable (is.map n).sum (settings.baseWidth name))
    (hbody : ∀ xs x, Stacks is n (settings.baseWidth name) .bool xs x → Follows is n w .bool (fun i => f i (xs i)) (g x)) :
    Follows is n (settings.baseWidth name) .bool (fun i => (t i).fixpoint least name (f i)) (s.fixpoint least name g) := by
  have hwidth : settings.baseWidth name = row.length := by
    have hlen := Base.length_init hrow
    rw [Settings.baseWidth, hbase, Option.map_some, Option.getD_some, ← hlen, Int.toNat_natCast]
  have hwhole : s.settings.base? name = some b := by rw [hs.settings_eq.1]; exact hbase
  rw [hwidth] at hstore hbody ⊢
  intro outs houts
  rw [Scene.fixpoint_eq hwhole hrow, hs.nodes.1, hbool, full?_eq hstore]
  refine settle_follows hs.nonempty (fun xs x hx => assigned_follows hs (hbody xs x hx)) _ _ _ _ (full_stacks is n row .bool) outs
    fun i hi => ?_
  have hpart : (t i).settings.base? name = some b := by rw [hs.settings_eq.2 i hi]; exact hbase
  have hout : (t i).fixpoint least name (f i) = .ok (outs i) := houts i hi
  rw [Scene.fixpoint_eq hpart hrow, hs.nodes.2 i hi, hbool, full?_eq (hstore.mono (le_sum_map hi))] at hout
  exact settle_mono hout (limit_le hs hi hstore)

/-! ## Formulas -/

/-- The labels of a variable, in each part and on the whole. -/
structure Held (ι : Type) where
  name : Bytes
  width : Nat
  parts : ι → Tensor
  whole : Tensor

namespace Held

/-- What variables have for some aspect of their labels. -/
def list {α : Type} (f : Held ι → α) (σ : List (Held ι)) : List (Bytes × α) :=
  σ.map fun v => (v.name, f v)

theorem lookup_list {α : Type} (f : Held ι → α) (σ : List (Held ι)) (name : Bytes) :
    (list f σ).lookup name = (σ.find? fun v => name == v.name).map f := by
  induction σ with
  | nil => rfl
  | cons v σ ih =>
    rw [list, List.map_cons, List.lookup_cons, List.find?_cons]
    cases name == v.name with
    | true => rfl
    | false => exact ih

end Held

/-- A variable in parts and on the whole. -/
theorem var_follows (hne : is ≠ []) {σ : List (Held ι)} (hσ : ∀ v ∈ σ, Stacks is n v.width .bool v.parts v.whole) (pos : Position)
    (name : Bytes) (ys : ι → Except Failure Tensor) (y : Except Failure Tensor) :
    Follows is n (((Held.list Held.width σ).lookup name).getD 0) .bool
      (fun i => meaning (t i) (Held.list (fun v => v.parts i) σ) (ys i) (.var pos name))
      (meaning s (Held.list Held.whole σ) y (.var pos name)) := by
  simp only [meaning, Held.lookup_list]
  cases hv : σ.find? fun v => name == v.name with
  | none => exact follows_of_error hne fun i _ => ⟨_, rfl⟩
  | some v =>
    intro xs hxs
    refine ⟨v.whole, rfl, (hσ v (List.mem_of_find?_eq_some hv)).congr fun i hi => ?_⟩
    exact (Except.ok.inj (hxs i hi)).symm

mutual

/-- A formula whose fixpoints are over truth values has a meaning on the whole if it has one on all parts, put together from these, and if
its labels on the whole can be stored. What it is applied to counts only where it is made use of, as far as `P` says. -/
theorem meaning_follows (hs : Assembled settings is t s n k de E) : ∀ (e : Expr) {σ : List (Held ι)} {w : Nat} {d : DType} {P : Prop}
    {ys : ι → Except Failure Tensor} {y : Except Failure Tensor}, e.Accepted Builtin.registries settings →
      e.BoolFixpoints settings de d → (∀ v ∈ σ, Stacks is n v.width .bool v.parts v.whole) → (P → Follows is n w d ys y) →
        e.Fits (is.map n).sum (is.map k).sum Builtin.registries settings.forBatches (Held.list Held.width σ) w P →
          Follows is n (e.width Builtin.registries settings (Held.list Held.width σ) w) (e.domain de d)
            (fun i => meaning (t i) (Held.list (fun v => v.parts i) σ) (ys i) e) (meaning s (Held.list Held.whole σ) y e)
  | .atom pos name arg, σ, w, d, _, ys, y, hacc, _, _, hy, hfits => by
    obtain ⟨psi, hget⟩ := hacc
    have hget : Builtin.psi.get name arg = .ok psi := hget
    rw [Expr.Fits, Expr.width_forBatches] at hfits
    have hwidth : Expr.width Builtin.registries settings (Held.list Held.width σ) w (.atom pos name arg) = (psi.width w).toNat := by
      rw [Expr.width, show Builtin.registries.psi.get name arg = .ok psi from hget]
    rw [hwidth] at hfits ⊢
    simp only [meaning]
    exact (hy hfits.1).bind fun xs x hx => atom_follows hs name arg hx hget (hfits.2.mono (le_psiRows _ _ _))
  | .seq _ left right, _, _, _, _, _, _, hacc, hbool, hσ, hy, hfits => by
    simp only [meaning]
    rw [Expr.Fits, Expr.width_forBatches] at hfits
    exact meaning_follows hs right hacc.2 hbool.2 hσ (meaning_follows hs left hacc.1 hbool.1 hσ hy) hfits
  | .par _ children, _, _, _, _, _, _, hacc, hbool, hσ, hy, hfits => by
    simp only [meaning]
    rw [Expr.Fits, Expr.totalWidth_forBatches] at hfits
    exact (meanings_follow hs children hacc hbool hσ hy hfits.2.2).concat hs.nonempty hfits.1 hfits.2.1
  | .diamond _ direction phi sigma, _, _, _, _, _, _, hacc, _, _, hy, hfits => by
    simp only [meaning]
    exact (hy hfits.1).bind fun xs x hx => diamond_follows hs hacc.1 direction hacc.2.2 hacc.2.1 hx hfits.2
  | .fix _ least v base body, σ, w, d, _, ys, y, hacc, hbool, hσ, hy, hfits => by
    obtain ⟨⟨b, row, hbase, hrow⟩, hbody⟩ := hacc
    simp only [meaning]
    have hturn : ∀ xs x, Stacks is n (settings.baseWidth base) .bool xs x → Follows is n
        (body.width Builtin.registries settings ((v, settings.baseWidth base) :: Held.list Held.width σ) w) (body.domain de d)
        (fun i => meaning (t i) ((v, xs i) :: Held.list (fun u => u.parts i) σ) (ys i) body)
        (meaning s ((v, x) :: Held.list Held.whole σ) y body) := by
      intro xs x hx
      have hheld : ∀ u ∈ (⟨v, settings.baseWidth base, xs, x⟩ : Held ι) :: σ, Stacks is n u.width .bool u.parts u.whole :=
        List.forall_mem_cons.mpr ⟨hx, hσ⟩
      exact meaning_follows hs body (σ := ⟨v, settings.baseWidth base, xs, x⟩ :: σ) hbody hbool.2.2 hheld hy hfits.2
    rw [hbool.2.1] at hturn
    exact fixpoint_follows hs hbase hrow (hbool.1 b hbase) hfits.1 hturn
  | .var pos name, _, _, _, _, ys, y, _, _, hσ, _, _ => var_follows hs.nonempty hσ pos name ys y
  | .hole, _, _, _, _, _, _, hacc, _, _, _, _ => hacc.elim

/-- Several formulas in parts and on the whole. -/
theorem meanings_follow (hs : Assembled settings is t s n k de E) : ∀ (es : List Expr) {σ : List (Held ι)} {w : Nat} {d : DType}
    {P : Prop} {ys : ι → Except Failure Tensor} {y : Except Failure Tensor}, Expr.AllAccepted Builtin.registries settings es →
      Expr.AllBoolFixpoints settings de d es → (∀ v ∈ σ, Stacks is n v.width .bool v.parts v.whole) → (P → Follows is n w d ys y) →
        Expr.AllFit (is.map n).sum (is.map k).sum Builtin.registries settings.forBatches (Held.list Held.width σ) w P es →
          FollowAll is n (Expr.totalWidth Builtin.registries settings (Held.list Held.width σ) w es) (Expr.domains de d es)
            (fun i => meanings (t i) (Held.list (fun v => v.parts i) σ) (ys i) es) (meanings s (Held.list Held.whole σ) y es)
  | [], _, _, _, _, _, _, _, _, _, _, _ => by
    intro xs hxs
    exact ⟨[], fun i hi => (Except.ok.inj (hxs i hi)).symm, rfl, nofun, rfl, rfl⟩
  | e :: es, _, _, _, _, _, _, hacc, hbool, hσ, hy, hfits => by
    intro xs hxs
    have he := meaning_follows hs e hacc.1 hbool.1 hσ hy hfits.1
    have hes := meanings_follow hs es hacc.2 hbool.2 hσ hy hfits.2
    exact FollowAll.cons he hes xs hxs

end

end

end ModalGraph
