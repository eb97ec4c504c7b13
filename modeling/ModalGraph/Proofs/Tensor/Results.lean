import ModalGraph.Proofs.Operator.Parts
import ModalGraph.Proofs.Tensor.Folds
import ModalGraph.Proofs.Tensor.Runs

/-!
# What the operations on tensors give

A tensor is sound if it has as many labels as its shape calls for, its truth values are 0 and 1, and its size can be counted in words.
Each operation on tensors, whatever functions it is given, makes a sound tensor of sound ones, provided that the size of what it makes
can be counted. And the operations that put rows together fail exactly if what they are given does not go together, or there is no room
for the labels (`Settles`).
-/

namespace ModalGraph

namespace Tensor

/-- Numbers of rows and columns that can be counted in words, as can the labels. -/
structure Within (rows cols : Int) : Prop where
  rows_lt : rows < 2 ^ 63
  cols_lt : cols < 2 ^ 63
  size_ge : -2 ^ 63 ≤ rows * cols
  size_lt : rows * cols < 2 ^ 63

instance (rows cols : Int) : Decidable (Within rows cols) :=
  decidable_of_iff (rows < 2 ^ 63 ∧ cols < 2 ^ 63 ∧ -2 ^ 63 ≤ rows * cols ∧ rows * cols < 2 ^ 63)
    ⟨fun h => ⟨h.1, h.2.1, h.2.2.1, h.2.2.2⟩, fun h => ⟨h.rows_lt, h.cols_lt, h.size_ge, h.size_lt⟩⟩

/-- A tensor as it is made from rows, of a size that can be counted in words. -/
structure Sound (x : Tensor) : Prop where
  proper : x.Proper
  within : Within x.rows x.cols

/-- An operation gives a sound tensor if what it is given goes together and there is room for the labels. It gives up if there is no
room, and else it fails with a shape error in its name. -/
def Settles (name : String) (consistent room : Prop) : Except Failure Tensor → Prop :=
  EndsIn (fun y => y.Sound ∧ consistent ∧ room) fun e => e = .aborted ∧ ¬room ∨ ¬consistent ∧ ∃ fault, e = .shapeIn name fault

namespace ResultsAux

section

variable {n w : Nat} {d : DType} {rows : List (List Label)} {x y : Tensor}

theorem within_natCast : Within n w ↔ n < 2 ^ 63 ∧ w < 2 ^ 63 ∧ n * w < 2 ^ 63 :=
  ⟨fun h => ⟨by exact_mod_cast h.rows_lt, by exact_mod_cast h.cols_lt, by exact_mod_cast h.size_lt⟩,
    fun h => ⟨by exact_mod_cast h.1, by exact_mod_cast h.2.1, by rw [← Int.natCast_mul]; omega, by exact_mod_cast h.2.2⟩⟩

theorem sound_of_hasRows (h : x.HasRows n w d rows) (hin : Within n w) : x.Sound :=
  ⟨h.proper, by rw [h.shaped.rows_eq, h.shaped.cols_eq]; exact hin⟩

theorem cast_exact (hd : d = .bool) (v : Label) : d.cast v = Label.zero ∨ d.cast v = Label.one :=
  hd ▸ cast_bool_exact v

/-- A sound tensor has its rows. -/
theorem rows_of_sound (h : x.Sound) : ∃ n w : Nat, x.HasRows n w x.dtype x.rowList ∧ x.rows = n ∧ x.cols = w ∧ Within n w := by
  have hrows := h.proper.hasRows (Int.toNat_of_nonneg h.proper.1.2.1).symm
  refine ⟨_, _, hrows, hrows.shaped.rows_eq, hrows.shaped.cols_eq, ?_⟩
  rw [← hrows.shaped.rows_eq, ← hrows.shaped.cols_eq]
  exact h.within

/-- Labels in place of others, as many and in the domain. -/
theorem sound_of_data (h : x.Sound) {data : Array Label} (hsize : data.size = x.data.size)
    (hdata : d = .bool → ∀ v ∈ data, v = Label.zero ∨ v = Label.one) : ({ x with dtype := d, data := data } : Tensor).Sound := by
  obtain ⟨hrows, hcols, hx⟩ := h.proper.1
  exact ⟨⟨⟨hrows, hcols, by rw [← hx, ← hsize]⟩, hdata⟩, h.within⟩

theorem volume?_of_within (hin : Within n w) : volume? n w = if n * w ≤ capacity then some (n * w) else none := by
  have hword : word ((n : Int) * w) = ((n * w : Nat) : Int) := by
    rw [← Int.natCast_mul]
    exact word_of_lt (within_natCast.mp hin).2.2
  rw [volume?, hword]
  split
  · rename_i h
    rw [if_pos (by exact_mod_cast h.2), Int.toNat_natCast]
  · rename_i h
    rw [if_neg fun hle => h ⟨Int.natCast_nonneg _, by exact_mod_cast hle⟩]

end

/-! ## Tensors that are built -/

section

variable {d : DType} {y : Tensor}

theorem sound_zeros {r c : Int} (h : zeros r c d = .ok y) (hin : Within r c) : y.Sound := by
  rw [zeros] at h
  split at h
  · cases h
  rename_i hneg
  obtain ⟨n, rfl⟩ := Int.eq_ofNat_of_zero_le (show 0 ≤ r by omega)
  obtain ⟨w, rfl⟩ := Int.eq_ofNat_of_zero_le (show 0 ≤ c by omega)
  rw [volume?_of_within hin] at h
  split at h
  · cases h
  rename_i hvolume
  split at hvolume
  · obtain rfl := Option.some.inj hvolume
    obtain rfl := Except.ok.inj h
    have hshaped : (⟨n, w, d, Array.replicate (n * w) Label.zero⟩ : Tensor).Shaped n w := ⟨rfl, rfl, Array.size_replicate⟩
    exact sound_of_hasRows (hshaped.hasRows fun _ v hv => .inl (Array.eq_of_mem_replicate hv)) hin
  · cases hvolume

theorem sound_fromRows {rows : List (List Label)} (h : fromRows rows d = .ok y) (hin : ∀ r ∈ rows, Within rows.length r.length) :
    y.Sound := by
  refine ⟨fromRows_proper h, ?_⟩
  rw [fromRows] at h
  split at h
  · cases h
  split at h
  · cases h
  obtain rfl := Except.ok.inj h
  cases rows with
  | nil => exact (within_natCast (n := 0) (w := 0)).mpr (by decide)
  | cons r rows =>
    have hr := hin r List.mem_cons_self
    simpa only [ofRows, List.length_map, List.headD_cons] using hr

/-- A column of labels of a domain. -/
theorem sound_column {α : Type} {f : α → Label} {as : List α} (hf : d = .bool → ∀ a ∈ as, f a = Label.zero ∨ f a = Label.one)
    (hin : Within as.length 1) : (ofRows 1 d (as.map fun a => [f a])).Sound := by
  have hrows : ∀ r ∈ as.map fun a => [f a], r.length = 1 := List.forall_mem_map.mpr fun _ _ => rfl
  refine sound_of_hasRows (hasRows_ofRows (List.length_map _) hrows fun hd => List.forall_mem_map.mpr fun a ha v hv => ?_) hin
  rw [List.mem_singleton.mp hv]
  exact hf hd a ha

theorem sound_fromBools {bs : List Bool} (hin : Within bs.length 1) : (fromBools bs).Sound := by
  refine sound_column (fun _ b _ => ?_) hin
  cases b
  · exact .inl rfl
  · exact .inr rfl

theorem sound_columnOf {vs : List Label} (hin : Within vs.length 1) : (column d vs).Sound :=
  sound_column (fun hd v _ => cast_exact hd v) hin

theorem sound_full {n : Int} {row : List Label} (h : full? n row d = some y) (hn : row = [] → 0 ≤ n) (hin : Within n row.length) :
    y.Sound := by
  obtain ⟨rfl, hroom⟩ := full?_some h
  -- A shape that is counted as it is has no room for rows with labels below zero.
  have hrows : 0 ≤ n := by
    by_contra hneg
    have hlen : 0 < row.length := List.length_pos_iff.mpr fun hnil => hneg (hn hnil)
    have hsize : n * row.length < 0 := Int.mul_neg_of_neg_of_pos (not_le.mp hneg) (by exact_mod_cast hlen)
    rw [hasRoom, volume?, word_eq hin.size_ge hin.size_lt, if_neg (by omega)] at hroom
    cases hroom
  obtain ⟨k, rfl⟩ := Int.eq_ofNat_of_zero_le hrows
  rw [full_natCast]
  refine sound_of_hasRows (hasRows_ofRows List.length_replicate (fun r hr => ?_) (exact_of_cast fun r hr => ?_)) hin
  · rw [List.eq_of_mem_replicate hr, List.length_map]
  · exact ⟨row, List.eq_of_mem_replicate hr⟩

end

/-! ## Label by label -/

section

variable {d : DType} {x y : Tensor}

theorem sound_set {i j : Int} {v : Label} (hx : x.Sound) (h : x.set? i j v = some y) : y.Sound := by
  rw [set?] at h
  split at h
  · obtain rfl := Option.some.inj h
    refine sound_of_data hx Array.size_setIfInBounds fun hd u hu => ?_
    rcases Array.mem_or_eq_of_mem_setIfInBounds hu with hu | rfl
    · exact hx.proper.2 hd u hu
    · exact cast_exact hd v
  · cases h

theorem sound_map (hx : x.Sound) (f : Label → Label) : (x.map d f).Sound := by
  refine sound_of_data hx Array.size_map fun hd v hv => ?_
  obtain ⟨u, -, rfl⟩ := Array.mem_map.mp hv
  exact cast_exact hd _

theorem sound_zip {a b : Tensor} (ha : a.Sound) (hb : b.Sound) {f : Label → Label → Label} (h : zip a b d f = .ok y) : y.Sound := by
  rw [zip] at h
  split at h
  · cases h
  rename_i hsame
  rw [not_or, not_not, not_not] at hsame
  obtain rfl := Except.ok.inj h
  have hsize : a.data.size = b.data.size := by
    have := ha.proper.1.2.2
    rw [hsame.1, hsame.2, ← hb.proper.1.2.2] at this
    exact_mod_cast this
  refine sound_of_data ha (by rw [Array.size_zipWith, hsize, Nat.min_self]) fun hd v hv => ?_
  obtain ⟨i, hi, rfl⟩ := Array.mem_iff_getElem.mp hv
  rw [Array.getElem_zipWith]
  exact cast_exact hd _

theorem sound_reduceRows (hx : x.Sound) {f : List Label → Label} (h : x.reduceRows? d f = some y) : y.Sound := by
  rw [reduceRows?] at h
  split at h
  · obtain rfl := Option.some.inj h
    obtain ⟨n, w, hrows, hxrows, -, hin⟩ := rows_of_sound hx
    refine sound_column (fun hd r _ => cast_exact hd _) ?_
    rw [hrows.length]
    exact within_natCast.mpr ⟨(within_natCast.mp hin).1, by decide, by rw [Nat.mul_one]; exact (within_natCast.mp hin).1⟩
  · cases h

end

/-! ## Rows and columns -/

section

variable {d : DType} {x y : Tensor}

/-- An operation that settles gives sound tensors only. -/
theorem Settles.sound {name : String} {consistent room : Prop} {r : Except Failure Tensor} (h : Settles name consistent room r)
    (hy : r = .ok y) : y.Sound := by
  subst hy
  exact h.1

theorem settles_slice (hx : x.Sound) (low high : Int) :
    Settles "slice" (0 ≤ low ∧ low ≤ high ∧ high ≤ x.cols) True (x.slice low high) := by
  obtain ⟨n, w, hrows, hxrows, hxcols, hin⟩ := rows_of_sound hx
  rw [slice]
  split
  · rename_i hrange
    exact .inr ⟨by omega, _, rfl⟩
  rename_i hrange
  obtain ⟨w', hw'⟩ := Int.eq_ofNat_of_zero_le (show 0 ≤ high - low by omega)
  have hcut : ∀ r ∈ x.rowList.map fun r => (r.drop low.toNat).take w', ∃ r' ∈ x.rowList, r <:+: r' ∧ r.length = w' := by
    refine List.forall_mem_map.mpr fun r hr => ⟨r, hr, ?_, ?_⟩
    · have htake := List.take_prefix w' (r.drop low.toNat)
      exact htake.isInfix.trans (r.drop_suffix low.toNat).isInfix
    · have hlen := hrows.width r hr
      rw [List.length_take, List.length_drop]
      omega
  have hwidth : w' ≤ w := by omega
  have hy : (ofRows w' x.dtype (x.rowList.map fun r => (r.drop low.toNat).take w')).HasRows n w' x.dtype
      (x.rowList.map fun r => (r.drop low.toNat).take w') := by
    refine hasRows_ofRows ?_ (fun r hr => ?_) fun hd r hr v hv => ?_
    · rw [List.length_map, hrows.length]
    · obtain ⟨-, -, -, hlen⟩ := hcut r hr
      exact hlen
    · obtain ⟨r', hr', hin', -⟩ := hcut r hr
      exact hrows.exact hd r' hr' v (hin'.subset hv)
  have hyin : Within n w' := by
    obtain ⟨hn, hw, hnw⟩ := within_natCast.mp hin
    exact within_natCast.mpr ⟨hn, by omega, Nat.lt_of_le_of_lt (Nat.mul_le_mul_left n hwidth) hnw⟩
  rw [if_neg (show ¬x.rows < 0 by omega), rowsReach_of_shaped hrows.shaped, hw', Int.toNat_natCast, hxrows, ← hy.shaped.rows_eq]
  exact ⟨sound_of_hasRows hy hyin, ⟨by omega, by omega, by omega⟩, trivial⟩

/-- Some steps fail if one of them does, and in the way of one of them. -/
theorem mapM_fails {α β : Type} {F : Failure → Prop} {f : α → Except Failure β} {as : List α} (h : ∀ a ∈ as, EndsIn (fun _ => True) F (f a))
    {a : α} (ha : a ∈ as) {e : Failure} (hfail : f a = .error e) : ∃ e', as.mapM f = .error e' ∧ F e' := by
  induction as with
  | nil => cases ha
  | cons b as ih =>
    obtain ⟨hb, has⟩ := List.forall_mem_cons.mp h
    rw [List.mapM_cons]
    cases hres : f b with
    | error e' =>
      rw [hres] at hb
      exact ⟨e', rfl, hb⟩
    | ok y =>
      have hmem : a ∈ as := (List.mem_cons.mp ha).resolve_left fun heq => by
        rw [heq, hres] at hfail
        cases hfail
      obtain ⟨e', he', hF⟩ := ih has hmem
      exact ⟨e', by rw [ok_bind, he']; rfl, hF⟩

/-- The rows at some numbers: room for them is found before they are looked for. -/
theorem settles_gather (hx : x.Sound) {idx : List Int} (hin : Within idx.length x.cols) :
    Settles "gather" (∀ i ∈ idx, 0 ≤ i ∧ i < x.rows) (idx.length * x.cols ≤ capacity) (x.gather idx) := by
  obtain ⟨n, w, hrows, hxrows, hxcols, hxin⟩ := rows_of_sound hx
  rw [hxcols] at hin
  have hfit : n * w < 2 ^ 63 := (within_natCast.mp hxin).2.2
  have hroom : ((idx.length : Int) * x.cols ≤ capacity) ↔ idx.length * w ≤ capacity := by
    rw [hxcols]
    exact_mod_cast Iff.rfl
  rw [hroom, hxrows]
  by_cases hsize : idx.length * w ≤ capacity
  · by_cases hidx : ∀ i ∈ idx, 0 ≤ i ∧ i < (n : Int)
    · have hy := hrows.picked hidx
      rw [hrows.gather_eq_of_lt hidx hfit hsize]
      exact ⟨sound_of_hasRows hy hin, hidx, hsize⟩
    · have hrow : ∀ i ∈ idx, EndsIn (fun _ => True) (fun e => ∃ fault, e = .shapeIn "gather" fault) (x.rowAt i) := by
        intro i _
        rw [rowAt]
        split
        · exact ⟨_, rfl⟩
        · rename_i hi
          rw [hxrows] at hi
          obtain ⟨k, rfl⟩ := Int.eq_ofNat_of_zero_le (show 0 ≤ i by omega)
          rw [row?_eq hrows.shaped hfit (by omega)]
          trivial
      simp only [not_forall] at hidx
      obtain ⟨i, hi, hrange⟩ := hidx
      have hfail : x.rowAt i = .error (.shapeIn "gather" (.indexRange i x.rows)) := by
        rw [rowAt, if_pos (by omega)]
      obtain ⟨e, he, hfault⟩ := mapM_fails hrow hi hfail
      rw [gather, hxcols, volume?_of_within hin, if_pos hsize]
      dsimp only
      rw [he]
      exact .inr ⟨fun h => hrange (h i hi), hfault⟩
  · rw [gather, hxcols, volume?_of_within hin, if_neg hsize]
    exact .inl ⟨rfl, hsize⟩

/-- Rows as often as their counts say. -/
theorem hasRows_replicated {n w : Nat} {rows : List (List Label)} {cs : List Nat} (hx : x.HasRows n w d rows) (hlen : cs.length = n) :
    (ofRows w d ((cs.zip rows).flatMap fun p => List.replicate p.1 p.2)).HasRows cs.sum w d
      ((cs.zip rows).flatMap fun p => List.replicate p.1 p.2) := by
  have hmem : ∀ r ∈ (cs.zip rows).flatMap fun p => List.replicate p.1 p.2, r ∈ rows := by
    intro r hr
    obtain ⟨p, hp, hr⟩ := List.mem_flatMap.mp hr
    exact List.eq_of_mem_replicate hr ▸ (List.of_mem_zip hp).2
  refine hasRows_ofRows ?_ (fun r hr => hx.width r (hmem r hr)) fun hd r hr => hx.exact hd r (hmem r hr)
  rw [List.length_flatMap]
  simp only [List.length_replicate]
  rw [List.map_fst_zip (by rw [hx.length, hlen])]

/-- Numbers that are not negative add up to what they do without a sign. -/
theorem sum_toNat {α : Type} {f : α → Int} {as : List α} (h : ∀ a ∈ as, 0 ≤ f a) :
    (as.map f).sum = (((as.map fun a => (f a).toNat).sum : Nat) : Int) := by
  induction as with
  | nil => rfl
  | cons a as ih =>
    obtain ⟨ha, has⟩ := List.forall_mem_cons.mp h
    rw [List.map_cons, List.sum_cons, ih has, List.map_cons, List.sum_cons, Int.natCast_add, Int.toNat_of_nonneg ha]

theorem sum_ofNat (cs : List Nat) : (cs.map Int.ofNat).sum = ((cs.sum : Nat) : Int) := by
  have hsum : (cs.map Int.ofNat).sum = _ := sum_toNat fun c _ => Int.natCast_nonneg c
  rwa [show (cs.map fun c => (Int.ofNat c).toNat) = cs from List.map_id cs] at hsum

/-- Rows given as often as their counts say. -/
theorem settles_repeatRows (hx : x.Sound) {counts : List Int}
    (hin : (counts.length : Int) = x.rows → (∀ c ∈ counts, 0 ≤ c) → Within counts.sum x.cols) :
    Settles "repeat" ((counts.length : Int) = x.rows ∧ ∀ c ∈ counts, 0 ≤ c) (counts.sum * x.cols ≤ capacity) (x.repeatRows counts) := by
  obtain ⟨n, w, hrows, hxrows, hxcols, hxin⟩ := rows_of_sound hx
  by_cases hlen : (counts.length : Int) = x.rows
  swap
  · rw [repeatRows, if_pos hlen]
    exact .inr ⟨fun h => hlen h.1, _, rfl⟩
  cases hfind : counts.find? (· < 0) with
  | some c =>
    have hc : c < 0 := by simpa using List.find?_some hfind
    rw [repeatRows, if_neg (not_not.mpr hlen), hfind]
    exact .inr ⟨fun h => Int.not_lt.mpr (h.2 c (List.mem_of_find?_eq_some hfind)) hc, _, rfl⟩
  | none =>
    have hneg : ∀ c ∈ counts, 0 ≤ c := by simpa using hfind
    have hin := hin hlen hneg
    obtain ⟨cs, rfl⟩ : ∃ cs : List Nat, counts = cs.map Int.ofNat := by
      refine ⟨counts.map Int.toNat, ?_⟩
      rw [List.map_map]
      exact (List.map_id counts).symm.trans (List.map_congr_left fun c hc => (Int.toNat_of_nonneg (hneg c hc)).symm)
    have hcs : cs.length = n := by
      rw [List.length_map, hxrows] at hlen
      exact_mod_cast hlen
    rw [sum_ofNat, hxcols] at hin ⊢
    by_cases hsize : cs.sum * w ≤ capacity
    · have hrepeat := PartsAux.repeatRows_eq (d := x.dtype) (hrows.length.trans hcs.symm) hrows.width hsize
      rw [← hrows.eq] at hrepeat
      rw [hrepeat]
      exact ⟨sound_of_hasRows (hasRows_replicated hrows hcs) hin, ⟨hlen, hneg⟩, by exact_mod_cast hsize⟩
    · have htotal : (cs.map Int.ofNat).foldr (fun a b => a + b) 0 = ((cs.sum : Nat) : Int) := sum_ofNat cs
      have hzero : cs.sum ≠ 0 := by
        rintro hzero
        rw [hzero, Nat.zero_mul] at hsize
        exact hsize (Nat.zero_le _)
      rw [repeatRows, if_neg (not_not.mpr hlen), hfind]
      dsimp only
      have hempty : decide (((cs.sum : Nat) : Int) = 0) = false := decide_eq_false (Int.natCast_ne_zero.mpr hzero)
      rw [htotal, hxcols, word_of_lt (within_natCast.mp hin).1, volume?_of_within hin, if_neg hsize, hempty, Option.isSome_none,
        Bool.and_false, Bool.or_false, if_neg Bool.false_ne_true]
      exact .inl ⟨rfl, by exact_mod_cast hsize⟩

/-! ## Several tensors -/

theorem rowsFault?_eq_none_iff {n : Int} {us : List Tensor} (i : Nat) : rowsFault? n i us = none ↔ ∀ u ∈ us, u.rows = n := by
  induction us generalizing i with
  | nil => exact ⟨fun _ => List.forall_mem_nil _, fun _ => rfl⟩
  | cons u us ih =>
    rw [rowsFault?, List.forall_mem_cons]
    split
    · rename_i hu
      exact (ih (i + 1)).trans (and_iff_right hu).symm
    · rename_i hu
      exact ⟨fun heq => (by cases heq), fun h => absurd h.1 hu⟩

/-- Tensors that are joined are of the domain that they have in common, if they are of truth values. -/
theorem eq_bool_of_join {t : Tensor} {rest : List Tensor} (h : t.dtype.join (rest.map Tensor.dtype) = .bool) :
    ∀ u ∈ t :: rest, u.dtype = .bool := by
  rw [DType.join] at h
  split at h
  · rename_i hall
    rw [List.all_eq_true] at hall
    refine List.forall_mem_cons.mpr ⟨h, fun u hu => ?_⟩
    rw [← h]
    exact eq_of_beq (hall u.dtype (List.mem_map_of_mem hu))
  · cases h

theorem sum_cols {us : List Tensor} (h : ∀ u ∈ us, u.Sound) : (us.map Tensor.cols).sum = (totalWidth us : Int) :=
  sum_toNat fun u hu => (h u hu).proper.1.2.1

theorem foldr_add (f : Tensor → Int) (us : List Tensor) : us.foldr (fun u k => f u + k) 0 = (us.map f).sum := by
  rw [List.sum_eq_foldr, List.foldr_map]

/-- What holds of the first of some tensors holds of all, as far as they are alike. -/
theorem forall_alike {f : Tensor → Int} {t : Tensor} {rest : List Tensor} (hall : ∀ u ∈ t :: rest, f u = f t) (p : Int → Prop) :
    (∀ u ∈ t :: rest, p (f u)) ↔ p (f t) :=
  ⟨fun h => h t List.mem_cons_self, fun h u hu => (hall u hu).symm ▸ h⟩

/-- The labels of sound tensors of one height side by side. -/
theorem hasRows_sideBySide {n : Nat} {t : Tensor} {rest : List Tensor} (h : ∀ u ∈ t :: rest, u.Sound)
    (hshaped : ∀ u ∈ t :: rest, ∃ w, u.Shaped n w) {rows : List (List Label)}
    (hrows : rows = (List.range n).map fun i => ((t :: rest).map fun u => u.row i).flatten) :
    (ofRows (totalWidth (t :: rest)) (t.dtype.join (rest.map Tensor.dtype)) rows).HasRows n (totalWidth (t :: rest))
      (t.dtype.join (rest.map Tensor.dtype)) rows := by
  subst hrows
  refine hasRows_ofRows (by rw [List.length_map, List.length_range]) (fun r hr => ?_) fun hd r hr v hv => ?_
  · obtain ⟨i, hi, rfl⟩ := List.mem_map.mp hr
    exact length_sideBySide hshaped (List.mem_range.mp hi)
  · obtain ⟨i, hi, rfl⟩ := List.mem_map.mp hr
    obtain ⟨r, hr, hv⟩ := List.mem_flatten.mp hv
    obtain ⟨u, hu, rfl⟩ := List.mem_map.mp hr
    obtain ⟨w, hw⟩ := hshaped u hu
    have hmem : u.row i ∈ u.rowList := by
      rw [rowList_eq hw]
      exact List.mem_map_of_mem hi
    obtain ⟨n', w', hrows, -⟩ := rows_of_sound (h u hu)
    exact hrows.exact (eq_bool_of_join hd u hu) _ hmem v hv

/-- Tensors side by side. -/
theorem settles_concat {us : List Tensor} (h : ∀ u ∈ us, u.Sound)
    (hin : (∀ u ∈ us, ∀ u' ∈ us, u.rows = u'.rows) → ∀ u ∈ us, Within u.rows (us.map Tensor.cols).sum) :
    Settles "concat" (us ≠ [] ∧ ∀ u ∈ us, ∀ u' ∈ us, u.rows = u'.rows) (∀ u ∈ us, u.rows * (us.map Tensor.cols).sum ≤ capacity)
      (concat us) := by
  cases us with
  | nil => exact .inr ⟨fun h => h.1 rfl, _, rfl⟩
  | cons t rest =>
    have htotal := foldr_add Tensor.cols (t :: rest)
    rw [sum_cols h] at hin htotal ⊢
    cases hfault : rowsFault? t.rows 0 (t :: rest) with
    | some fault =>
      rw [concat]
      dsimp only
      rw [hfault]
      refine .inr ⟨fun hsame => ?_, fault, rfl⟩
      rw [(rowsFault?_eq_none_iff 0).mpr fun u hu => hsame.2 u hu t List.mem_cons_self] at hfault
      cases hfault
    | none =>
      have hall := (rowsFault?_eq_none_iff 0).mp hfault
      have hsame : ∀ u ∈ t :: rest, ∀ u' ∈ t :: rest, u.rows = u'.rows := fun u hu u' hu' => (hall u hu).trans (hall u' hu').symm
      have hin := hin hsame t List.mem_cons_self
      obtain ⟨n, w, hrows, htrows, htcols, -⟩ := rows_of_sound (h t List.mem_cons_self)
      have hshaped : ∀ u ∈ t :: rest, ∃ w, u.Shaped n w := by
        intro u hu
        obtain ⟨n', w', hrows', hurows, -⟩ := rows_of_sound (h u hu)
        obtain rfl : n' = n := by
          have := hall u hu
          omega
        exact ⟨w', hrows'.shaped⟩
      rw [htrows] at hin
      have hroom : (∀ u ∈ t :: rest, u.rows * (totalWidth (t :: rest) : Int) ≤ capacity) ↔ n * totalWidth (t :: rest) ≤ capacity := by
        rw [forall_alike hall (fun k => k * (totalWidth (t :: rest) : Int) ≤ capacity), htrows]
        exact_mod_cast Iff.rfl
      rw [hroom]
      by_cases hsize : n * totalWidth (t :: rest) ≤ capacity
      · rw [concat_eq hshaped hsize (within_natCast.mp hin).2.1]
        exact ⟨sound_of_hasRows (hasRows_sideBySide h hshaped rfl) hin, ⟨List.cons_ne_nil t rest, hsame⟩, hsize⟩
      · rw [concat]
        dsimp only
        rw [hfault, htotal, htrows, word_of_lt (within_natCast.mp hin).2.1, volume?_of_within hin, if_neg hsize]
        exact .inl ⟨rfl, hsize⟩

theorem sum_rows {us : List Tensor} (h : ∀ u ∈ us, u.Sound) :
    (us.map Tensor.rows).sum = (((us.map fun u => u.rows.toNat).sum : Nat) : Int) :=
  sum_toNat fun u hu => (h u hu).proper.1.1

theorem dtype_of_stack {t : Tensor} {rest : List Tensor} (h : stack (t :: rest) = .ok y) :
    y.dtype = t.dtype.join (rest.map Tensor.dtype) := by
  rw [stack] at h
  split at h
  · cases h
  · dsimp only at h
    split at h
    · cases h
    · split at h
      · cases h
      · obtain rfl := Except.ok.inj h
        rfl

/-- Tensors below each other. -/
theorem settles_stack {us : List Tensor} (h : ∀ u ∈ us, u.Sound)
    (hin : (∀ u ∈ us, ∀ u' ∈ us, u.cols = u'.cols) → ∀ u ∈ us, Within (us.map Tensor.rows).sum u.cols) :
    Settles "stack" (us ≠ [] ∧ ∀ u ∈ us, ∀ u' ∈ us, u.cols = u'.cols) (∀ u ∈ us, (us.map Tensor.rows).sum * u.cols ≤ capacity)
      (stack us) := by
  cases us with
  | nil => exact .inr ⟨fun h => h.1 rfl, _, rfl⟩
  | cons t rest =>
    have htotal := foldr_add Tensor.rows (t :: rest)
    rw [sum_rows h] at hin htotal ⊢
    generalize hn : ((t :: rest).map fun u => u.rows.toNat).sum = n at hin htotal ⊢
    cases hfault : widthFault? t.cols 0 (t :: rest) with
    | some fault =>
      rw [stack]
      dsimp only
      rw [hfault]
      refine .inr ⟨fun hsame => ?_, fault, rfl⟩
      rw [(widthFault?_eq_none 0).mpr fun u hu => hsame.2 u hu t List.mem_cons_self] at hfault
      cases hfault
    | none =>
      have hall := (widthFault?_eq_none 0).mp hfault
      have hsame : ∀ u ∈ t :: rest, ∀ u' ∈ t :: rest, u.cols = u'.cols := fun u hu u' hu' => (hall u hu).trans (hall u' hu').symm
      have hin := hin hsame t List.mem_cons_self
      obtain ⟨-, w, -, -, htcols, -⟩ := rows_of_sound (h t List.mem_cons_self)
      rw [htcols] at hin
      have hshaped : ∀ u ∈ t :: rest, u.Shaped u.rows.toNat w := fun u hu =>
        (h u hu).proper.1.shaped ((hall u hu).trans htcols)
      have hroom : (∀ u ∈ t :: rest, (n : Int) * u.cols ≤ capacity) ↔ n * w ≤ capacity := by
        rw [forall_alike hall (fun k => (n : Int) * k ≤ capacity), htcols]
        exact_mod_cast Iff.rfl
      rw [hroom]
      by_cases hsize : n * w ≤ capacity
      · have hlt := (within_natCast.mp hin).1
        obtain ⟨d', hstack, -⟩ := stack_shaped (List.cons_ne_nil t rest) hshaped (hn ▸ hsize) (hn ▸ hlt)
        rw [List.map_id'] at hstack
        have hd' := dtype_of_stack hstack
        have hparts : ∀ u ∈ t :: rest, (ofRows w d' u.rowList).HasRows u.rows.toNat w d' u.rowList := by
          intro u hu
          refine hasRows_ofRows (length_rowList (hshaped u hu)) (width_of_mem_rowList (hshaped u hu)) fun hbool => ?_
          obtain ⟨n', w', hrows, -⟩ := rows_of_sound (h u hu)
          exact hrows.exact (eq_bool_of_join (hd'.symm.trans hbool) u hu)
        have hy := hasRows_flatMap hparts
        rw [hn] at hy
        rw [hstack]
        exact ⟨sound_of_hasRows hy hin, ⟨List.cons_ne_nil t rest, hsame⟩, hsize⟩
      · rw [stack]
        dsimp only
        rw [hfault, htotal, htcols, word_of_lt (within_natCast.mp hin).1, volume?_of_within hin, if_neg hsize]
        exact .inl ⟨rfl, hsize⟩

/-! ## Rows folded together -/

theorem length_le_of_runs {index : List Int} {counts : List Nat} (h : Runs index counts) : counts.length ≤ index.length := by
  induction h with
  | nil => exact Nat.le_refl 0
  | run pos _ _ ih =>
    rw [List.length_append, List.length_replicate, List.length_cons]
    omega

theorem sound_segmentReduce (hx : x.Sound) {index : List Int} {init : Label} {f : Label → Label → Label}
    (h : x.segmentReduce index d init f = .ok y) : y.Sound := by
  obtain ⟨n, w, hrows, hxrows, hxcols, hin⟩ := rows_of_sound hx
  by_cases hlen : (index.length : Int) = x.rows
  swap
  · rw [segmentReduce, if_pos hlen] at h
    cases h
  have hlen' : index.length = n := by omega
  have hseg := h
  rw [segmentReduce, if_neg (not_not.mpr hlen)] at hseg
  obtain ⟨counts, hcounts, -⟩ := bind_ok hseg
  rw [PartsAux.segmentReduce_eq hrows.shaped hlen' hcounts] at h
  obtain rfl := Except.ok.inj h
  have hle : counts.length ≤ n := hlen' ▸ length_le_of_runs (runs_of_segmentCounts hcounts)
  obtain ⟨hn, hw, hnw⟩ := within_natCast.mp hin
  refine sound_of_hasRows (n := counts.length) (w := w) (hasRows_ofRows ?_ (fun r hr => ?_) (exact_of_cast fun r hr => ?_))
    (within_natCast.mpr ⟨by omega, hw, Nat.lt_of_le_of_lt (Nat.mul_le_mul_right w hle) hnw⟩)
  · rw [List.length_map, PartsAux.length_pieces]
  · obtain ⟨piece, hpiece, rfl⟩ := List.mem_map.mp hr
    rw [List.length_map]
    exact length_foldRows fun r' hr' => hrows.width r' (PartsAux.mem_pieces hpiece r' hr')
  · obtain ⟨piece, -, rfl⟩ := List.mem_map.mp hr
    exact ⟨_, rfl⟩

theorem sound_scatterReduce (hx : x.Sound) {target : List Int} {n : Int} {init empty : Label} {f : Label → Label → Label}
    (h : x.scatterReduce target n d init empty f = .ok y) (hin : Within n x.cols) : y.Sound := by
  obtain ⟨k, w, hrows, hxrows, hxcols, -⟩ := rows_of_sound hx
  by_cases hn : n < 0
  · rw [scatterReduce] at h
    split at h
    · cases h
    · rw [if_pos (.inl hn)] at h
      cases h
  obtain ⟨m, rfl⟩ := Int.eq_ofNat_of_zero_le (Int.not_lt.mp hn)
  obtain ⟨-, rfl⟩ := (FoldsAux.scatterReduce_eq_ok hrows.shaped (Int.natCast_nonneg m)).mp h
  rw [hxcols] at hin
  refine sound_of_hasRows (n := m) (w := w) (hasRows_ofRows ?_ (fun r hr => ?_) (exact_of_cast fun r hr => ?_)) hin
  · rw [List.length_map, List.length_range]
    rfl
  · obtain ⟨i, -, rfl⟩ := List.mem_map.mp hr
    exact scatterReduce_width hrows.shaped target d init empty f i
  · obtain ⟨i, -, rfl⟩ := List.mem_map.mp hr
    exact ⟨_, rfl⟩

end

end ResultsAux

end Tensor

end ModalGraph
