import ModalGraph.Proofs.Operator.Domain
import ModalGraph.Proofs.Operator.Messages
import ModalGraph.Proofs.Operator.Parts

/-!
# Message passing part by part

The messages along the edges are a function of the rows at both ends and of the rows of edge labels, edge by edge (`Sends`). With
builtin operators, one step of message passing sends these messages to the nodes that the edges go to and folds what arrives at a node
(`diamond_acts`), or else it fails on all labels of that width and domain.
-/

namespace ModalGraph

open Tensor

/-- Edge labels with some rows, where edges have labels, and none otherwise. -/
def HasEdgeRows (labelled : Bool) (k we : Nat) (de : DType) (rows : List (List Label)) (e : Labels) : Prop :=
  if labelled then ∃ t, e = some t ∧ t.HasRows k we de rows else e = none

/-- Messages as a function of the rows where edges start, of their labels, and of the rows where they go, edge by edge. -/
structure Sends (labelled : Bool) (w we wm : Nat) (d de dm : DType)
    (M : List (List Label) → List (List Label) → List (List Label) → List (List Label)) : Prop where
  append : ∀ {S₁ S₂ E₁ E₂ T₁ T₂}, S₁.length = T₁.length → (labelled = true → E₁.length = T₁.length) →
    M (S₁ ++ S₂) (E₁ ++ E₂) (T₁ ++ T₂) = M S₁ E₁ T₁ ++ M S₂ E₂ T₂
  length : ∀ {k S E T}, S.length = k → (labelled = true → E.length = k) → T.length = k → (M S E T).length = k
  width : ∀ {S E T}, (∀ r ∈ S, r.length = w) → (labelled = true → ∀ r ∈ E, r.length = we) → (∀ r ∈ T, r.length = w) →
    ∀ r ∈ M S E T, r.length = wm
  exact : ∀ {S E T}, Exact d S → (labelled = true → Exact de E) → Exact d T → Exact dm (M S E T)

section

variable {labelled : Bool} {w we wm : Nat} {d de dm : DType}
  {M : List (List Label) → List (List Label) → List (List Label) → List (List Label)}

/-- Messages along the edges of several parts. -/
theorem Sends.flatMap (h : Sends labelled w we wm d de dm M) {ι : Type} {is : List ι} {S E T : ι → List (List Label)}
    (hlen : ∀ i ∈ is, (S i).length = (T i).length ∧ (labelled = true → (E i).length = (T i).length)) :
    M (is.flatMap S) (is.flatMap E) (is.flatMap T) = is.flatMap fun i => M (S i) (E i) (T i) := by
  induction is with
  | nil => exact List.length_eq_zero_iff.mp (h.length rfl (fun _ => rfl) rfl)
  | cons i is ih =>
    obtain ⟨hS, hE⟩ := hlen i List.mem_cons_self
    rw [List.flatMap_cons, List.flatMap_cons, List.flatMap_cons, List.flatMap_cons, h.append hS hE,
      ih fun j hj => hlen j (List.mem_cons_of_mem _ hj)]

/-- The labels where edges start. -/
theorem sends_origin : Sends labelled w we w d de d fun S _ _ => S where
  append := fun _ _ => rfl
  length := fun hS _ _ => hS
  width := fun hS _ _ => hS
  exact := fun hS _ _ => hS

/-- The labels where edges go. -/
theorem sends_target : Sends labelled w we w d de d fun _ _ T => T where
  append := fun _ _ => rfl
  length := fun _ _ hT => hT
  width := fun _ _ hT => hT
  exact := fun _ _ hT => hT

/-- The labels of edges. -/
theorem sends_edge : Sends true w we we d de de fun _ E _ => E where
  append := fun _ _ => rfl
  length := fun _ hE _ => hE rfl
  width := fun _ hE _ => hE rfl
  exact := fun _ hE _ => hE rfl

/-- A row where an edge goes with the row of its labels, true at features in which the label of the edge is zero. -/
def zeroRow (we : Nat) (p : List Label × List Label) : List Label :=
  p.1.zipIdx.map fun q => if q.1.isZero then Label.zero else Label.ofBool (p.2[if 1 < we then q.2 else 0]?.getD Label.zero).isZero

/-- The labels where edges with label zero go. -/
theorem sends_zero : Sends true w we w d de .bool fun _ E T => (T.zip E).map (zeroRow we) where
  append := fun _ hE => by rw [List.zip_append (hE rfl).symm, List.map_append]
  length := fun _ hE hT => by rw [List.length_map, List.length_zip, hT, hE rfl, Nat.min_self]
  width := by
    intro S E T _ _ hT r hr
    obtain ⟨p, hp, rfl⟩ := List.mem_map.mp hr
    rw [zeroRow, List.length_map, List.length_zipIdx, hT p.1 (List.of_mem_zip hp).1]
  exact := by
    intro S E T _ _ _ _ r hr v hv
    obtain ⟨p, _, rfl⟩ := List.mem_map.mp hr
    obtain ⟨q, _, rfl⟩ := List.mem_map.mp hv
    split
    · exact .inl rfl
    · cases (p.2[if 1 < we then q.2 else 0]?.getD Label.zero).isZero with
      | true => exact .inr rfl
      | false => exact .inl rfl

end

/-- A phi that sends messages by a function of the rows, or fails on all labels of these widths and domains. -/
def Phi.SendsOrFails (phi : Phi) (labelled : Bool) (w we wm : Nat) (d de dm : DType) : Prop :=
  (∀ {k S E T s e t}, s.HasRows k w d S → HasEdgeRows labelled k we de E e → t.HasRows k w d T →
      ∃ f, phi.messages (some s) e (some t) = .error f) ∨
    ∃ M, Sends labelled w we wm d de dm M ∧ ∀ {k S E T s e t}, s.HasRows k w d S → HasEdgeRows labelled k we de E e →
      t.HasRows k w d T → Storable k w → phi.messages (some s) e (some t) = .ok (some (ofRows wm dm (M S E T)))

theorem zeroEdge_rows {k w we : Nat} {d de : DType} {E T : List (List Label)} {e t : Tensor} (he : e.HasRows k we de E)
    (ht : t.HasRows k w d T) (hw : we = 1 ∨ we = w) (hstore : Storable k w) :
    Builtin.zeroEdge (some e) (some t) = .ok (some (ofRows w .bool ((T.zip E).map (zeroRow we)))) := by
  rw [zeroEdge_eq he.shaped ht.shaped hw hstore]
  congr 3
  refine List.ext_getElem? fun i => ?_
  rw [List.getElem?_map, List.getElem?_map]
  by_cases hi : i < k
  · have hzip : (T.zip E)[i]? = some (t.row i, e.row i) := List.getElem?_zip_eq_some.mpr ⟨ht.row_eq hi, he.row_eq hi⟩
    rw [List.getElem?_range hi, hzip]
    refine congrArg some (List.map_congr_left fun p _ => ?_)
    rw [zeroEdgeLabel, label, edgeColumn, he.shaped.cols_eq]
    norm_cast
  · rw [List.getElem?_eq_none (by simpa using hi), List.getElem?_eq_none]
    · rfl
    · rw [List.length_zip, ht.length]
      omega

/-- Every builtin phi sends messages by a function of the rows. -/
theorem phi_sends {key : Bytes} {phi : Phi} (h : Builtin.phi.resolve key = .ok phi) (labelled : Bool) (w we : Nat) (d de : DType) :
    phi.SendsOrFails labelled w we (phiWidth we w (some key)) d de (phiDomain de d (some key)) := by
  have hevery : Builtin.phi.Every fun name _ phi => phi.SendsOrFails labelled w we (if name == Bytes.ofString "edge" then we else w)
      d de (if name == Bytes.ofString "z" then .bool else if name == Bytes.ofString "edge" then de else d) := by
    refine Builtin.phi_every ?_ ?_ ?_ ?_
    · intro arg
      by_cases hlabelled : labelled = true
      · subst hlabelled
        by_cases hw : we = 1 ∨ we = w
        · refine .inr ⟨_, sends_zero, fun {k S E T s e t} _ he ht hstore => ?_⟩
          obtain ⟨e', rfl, he'⟩ := he
          exact zeroEdge_rows he' ht hw hstore
        · refine .inl fun {k S E T s e t} _ he ht => ?_
          obtain ⟨e', rfl, he'⟩ := he
          obtain ⟨f, hf, _⟩ := zeroEdge_fails he'.shaped ht.shaped hw
          exact ⟨f, hf⟩
      · obtain rfl := Bool.not_eq_true _ |>.mp hlabelled
        refine .inl fun {k S E T s e t} _ he _ => ?_
        obtain rfl : e = none := he
        exact ⟨_, rfl⟩
    · exact fun arg => .inr ⟨_, sends_origin, fun hs _ _ _ => by rw [hs.eq]; rfl⟩
    · exact fun arg => .inr ⟨_, sends_target, fun _ _ ht _ => by rw [ht.eq]; rfl⟩
    · intro arg
      by_cases hlabelled : labelled = true
      · subst hlabelled
        refine .inr ⟨_, sends_edge, fun {k S E T s e t} _ he _ _ => ?_⟩
        obtain ⟨e', rfl, he'⟩ := he
        rw [he'.eq]
        rfl
      · obtain rfl := Bool.not_eq_true _ |>.mp hlabelled
        refine .inl fun {k S E T s e t} _ he _ => ?_
        obtain rfl : e = none := he
        exact ⟨_, rfl⟩
  exact hevery.resolve h

/-! ## Diamonds -/

/-- A scene with builtin operators, `n` nodes and `k` edges between them. -/
structure Scene.Wired (s : Scene) (n k : Nat) (labelled : Bool) (we : Nat) (de : DType) (E : List (List Label)) : Prop where
  ops_eq : s.ops = Builtin.registries
  nodes_eq : s.nodes = n
  edges_eq : s.edges = k
  joined : s.input.Joined n
  labels : HasEdgeRows labelled k we de E s.edgeLabels

namespace Scene

/-- The rows where edges start. -/
def startRows (s : Scene) (direction : Direction) (rows : List (List Label)) : List (List Label) :=
  picked rows (s.ends direction).1

/-- The rows where edges go. -/
def goalRows (s : Scene) (direction : Direction) (rows : List (List Label)) : List (List Label) :=
  picked rows (s.ends direction).2

variable {s : Scene} {n k w we : Nat} {labelled : Bool} {d de : DType} {E rows : List (List Label)} {x : Tensor}

theorem Wired.startRows (h : s.Wired n k labelled we de E) (hx : x.HasRows n w d rows) (direction : Direction) :
    (ofRows w d (s.startRows direction rows)).HasRows k w d (s.startRows direction rows) := by
  obtain ⟨hin, hlen⟩ := Scene.origins h.joined direction
  rw [← h.edges_eq, ← hlen]
  exact hx.picked hin

theorem Wired.goalRows (h : s.Wired n k labelled we de E) (hx : x.HasRows n w d rows) (direction : Direction) :
    (ofRows w d (s.goalRows direction rows)).HasRows k w d (s.goalRows direction rows) := by
  obtain ⟨hin, hlen⟩ := Scene.goals h.joined direction
  rw [← h.edges_eq, ← hlen]
  exact hx.picked hin

theorem Wired.gather (h : s.Wired n k labelled we de E) (hx : x.HasRows n w d rows) (hn : Storable n w)
    (hk : Storable k w) (direction : Direction) : x.gather (s.ends direction).1 = .ok (ofRows w d (s.startRows direction rows)) ∧
      x.gather (s.ends direction).2 = .ok (ofRows w d (s.goalRows direction rows)) := by
  obtain ⟨hoin, holen⟩ := Scene.origins h.joined direction
  obtain ⟨hgin, hglen⟩ := Scene.goals h.joined direction
  constructor
  · exact hx.gather_eq hoin hn (by rwa [holen, h.edges_eq])
  · exact hx.gather_eq hgin hn (by rwa [hglen, h.edges_eq])

end Scene

/-- The messages along the edges of a scene. -/
theorem Sends.hasRows {labelled : Bool} {w we wm : Nat} {d de dm : DType}
    {M : List (List Label) → List (List Label) → List (List Label) → List (List Label)} (h : Sends labelled w we wm d de dm M)
    {s : Scene} {n k : Nat} {E rows : List (List Label)} {x : Tensor} (hs : s.Wired n k labelled we de E) (hx : x.HasRows n w d rows)
    (direction : Direction) : (ofRows wm dm (M (s.startRows direction rows) E (s.goalRows direction rows))).HasRows k wm dm
      (M (s.startRows direction rows) E (s.goalRows direction rows)) := by
  have hS := hs.startRows hx direction
  have hT := hs.goalRows hx direction
  have hE : labelled = true → E.length = k ∧ (∀ r ∈ E, r.length = we) ∧ Exact de E := by
    rintro rfl
    obtain ⟨e, _, he⟩ := hs.labels
    exact ⟨he.length, he.width, he.exact⟩
  exact hasRows_ofRows (h.length hS.length (fun hl => (hE hl).1) hT.length) (h.width hS.width (fun hl => (hE hl).2.1) hT.width)
    (h.exact hS.exact (fun hl => (hE hl).2.2) hT.exact)

/-- A fold of rows of one width into a row of that width, taken into a domain. -/
def Folds (w : Nat) (d : DType) (g : List (List Label) → List Label) : Prop :=
  ∀ rows : List (List Label), (∀ r ∈ rows, r.length = w) → (g rows).length = w ∧ ∃ r : List Label, g rows = r.map d.cast

theorem Folds.scattered {w : Nat} {d dm : DType} {g : List (List Label) → List Label} (h : Folds w d g) {k : Nat}
    {rows : List (List Label)} {m : Tensor} (hm : m.HasRows k w dm rows) (n : Nat) (target : List Int) :
    (ofRows w d (scattered g n target rows)).HasRows n w d (scattered g n target rows) := by
  have hsent : ∀ i, ∀ r ∈ sentTo target rows i, r.length = w := fun i r hr => hm.width r (mem_of_mem_sentTo hr)
  refine hasRows_ofRows (length_scattered _ _ _ _) (fun r hr => ?_) (exact_of_cast fun r hr => ?_)
  · obtain ⟨i, _, rfl⟩ := List.mem_map.mp hr
    exact (h _ (hsent i)).1
  · obtain ⟨i, _, rfl⟩ := List.mem_map.mp hr
    exact (h _ (hsent i)).2

section

variable (direction : Direction) {phi : Option Bytes} (labelled : Bool) (w we : Nat) (d de : DType)

/-- The messages of a diamond are a function of the rows, or fail on all labels of these widths and domains. -/
theorem messages_send (hphi : ∀ key ∈ phi, ∃ op, Builtin.phi.resolve key = .ok op) :
    (∀ {s : Scene} {n k E rows x}, s.Wired n k labelled we de E → x.HasRows n w d rows → Storable n w → Storable k w →
        ∃ f, s.messages direction phi x = .error f) ∨
      ∃ M, Sends labelled w we (phiWidth we w phi) d de (phiDomain de d phi) M ∧
        ∀ {s : Scene} {n k E rows x}, s.Wired n k labelled we de E → x.HasRows n w d rows → Storable n w → Storable k w →
          s.messages direction phi x = .ok (ofRows (phiWidth we w phi) (phiDomain de d phi)
            (M (s.startRows direction rows) E (s.goalRows direction rows))) := by
  cases phi with
  | none =>
    refine .inr ⟨_, sends_origin, fun {s n k E rows x} hs hx hn hk => ?_⟩
    rw [Scene.messages, (hs.gather hx hn hk direction).1]
    rfl
  | some key =>
    obtain ⟨op, hop⟩ := hphi key rfl
    have hmessages : ∀ {s : Scene} {n k E rows x}, s.Wired n k labelled we de E → x.HasRows n w d rows → Storable n w → Storable k w →
        s.messages direction (some key) x = (op.messages (some (ofRows w d (s.startRows direction rows))) s.edgeLabels
          (some (ofRows w d (s.goalRows direction rows))) >>= Scene.messagePerEdge k) := by
      intro s n k E rows x hs hx hn hk
      obtain ⟨hstart, hgoal⟩ := hs.gather hx hn hk direction
      have hlen : (s.ends direction).2.length = k := (Scene.goals hs.joined direction).2.trans hs.edges_eq
      rw [Scene.messages, hstart, hs.ops_eq]
      show (Builtin.phi.resolve key >>= fun phi => x.gather (s.ends direction).2 >>= _) = _
      rw [hop, hgoal, hlen]
      rfl
    rcases phi_sends hop labelled w we d de with hfails | ⟨M, hsends, hM⟩
    · refine .inl fun {s n k E rows x} hs hx hn hk => ?_
      obtain ⟨f, hf⟩ := hfails (hs.startRows hx direction) hs.labels (hs.goalRows hx direction)
      rw [hmessages hs hx hn hk, hf]
      exact ⟨f, rfl⟩
    · refine .inr ⟨M, hsends, fun {s n k E rows x} hs hx hn hk => ?_⟩
      rw [hmessages hs hx hn hk, hM (hs.startRows hx direction) hs.labels (hs.goalRows hx direction) hk]
      show Scene.messagePerEdge k (some _) = _
      rw [Scene.messagePerEdge, if_pos (hsends.hasRows hs hx direction).shaped.rows_eq]

/-- A diamond sends messages to nodes and folds what arrives, or fails on all labels of these widths and domains. -/
theorem diamond_acts (hphi : ∀ key ∈ phi, ∃ op, Builtin.phi.resolve key = .ok op) {sigma : Bytes}
    (hsigma : ∃ op, Builtin.sigma.resolve sigma = .ok op) :
    (∀ {s : Scene} {n k E rows x}, s.Wired n k labelled we de E → x.HasRows n w d rows →
        Sendable n k w (phiWidth we w phi) → ∃ f, s.diamond direction phi sigma x = .error f) ∨
      ∃ M g, Sends labelled w we (phiWidth we w phi) d de (phiDomain de d phi) M ∧
        Folds (phiWidth we w phi) (sigmaDomain sigma (phiDomain de d phi)) g ∧
        ∀ {s : Scene} {n k E rows x}, s.Wired n k labelled we de E → x.HasRows n w d rows →
          Sendable n k w (phiWidth we w phi) → s.diamond direction phi sigma x = .ok (ofRows (phiWidth we w phi)
            (sigmaDomain sigma (phiDomain de d phi)) (scattered g n (s.ends direction).2
              (M (s.startRows direction rows) E (s.goalRows direction rows)))) := by
  obtain ⟨op, hop⟩ := hsigma
  obtain ⟨dtype, init, empty, f, rfl, hdomain⟩ := sigma_gathers hop
  have hresolve : ∀ {s : Scene}, s.ops = Builtin.registries → s.ops.sigma.resolve sigma = .ok (Builtin.gather dtype init empty f) := by
    intro s hs
    rw [hs]
    exact hop
  rcases messages_send direction labelled w we d de hphi with hfails | ⟨M, hsends, hM⟩
  · refine .inl fun {s n k E rows x} hs hx hstore => ?_
    obtain ⟨f', hf'⟩ := hfails hs hx hstore.operand hstore.ends
    rw [Scene.diamond, hresolve hs.ops_eq, hf']
    exact ⟨f', rfl⟩
  · generalize phiWidth we w phi = wm at hsends hM ⊢
    generalize phiDomain de d phi = dm at hsends hM ⊢
    refine .inr ⟨M, fun rows => (arrivalRow f init empty wm rows).map (sigmaDomain sigma dm).cast, hsends, fun rows hrows => ?_,
      fun {s n k E rows x} hs hx hstore => ?_⟩
    · exact ⟨by rw [List.length_map]; exact length_arrivalRow hrows, _, rfl⟩
    · have hrows := hsends.hasRows hs hx direction
      obtain ⟨hgin, hglen⟩ := Scene.goals hs.joined direction
      have hscatter := hrows.scatterReduce_eq (hglen.trans hs.edges_eq) hgin hstore.result hstore.places
        (sigmaDomain sigma dm) init empty f
      rw [Scene.diamond, hresolve hs.ops_eq, hM hs hx hstore.operand hstore.ends, hs.nodes_eq]
      show (some <$> (ofRows (wm : Int) dm _).scatterReduce (s.ends direction).2 n (dtype.getD dm) init empty f >>= s.rowPerNode) = _
      rw [hdomain, hscatter]
      show s.rowPerNode (some _) = _
      rw [Scene.rowPerNode, if_pos]
      show ((scattered _ n _ _).length : Int) = s.nodes
      rw [length_scattered, hs.nodes_eq]

end

end ModalGraph
