import ModalGraph.Tensor.Codec
import ModalGraph.Proofs.Wire.Field

/-!
# Reading back the binary form of a tensor

The reader goes from field to field and keeps a draft. That some bytes take it from one draft to another, whatever follows them,
is a relation that composes (`CodecAux.Reads`): each field of the binary form is looked at on its own, and the whole form is
their sequence. Only numbers of 64 bits can be written. A tensor whose shape has such numbers and exactly as many labels as it
says comes back as it was, every label with all its bits.
-/

namespace ModalGraph

/-- The place of a domain is its code. -/
theorem DType.ofCode?_code (d : DType) : DType.ofCode? d.code = some d := by
  cases d <;> rfl

/-- The code of the domain at some place is the place. -/
theorem DType.code_of_ofCode? {n : Nat} {d : DType} (h : DType.ofCode? n = some d) : d.code = n := by
  match n with
  | 0 | 1 | 2 | 3 | 4 | 5 =>
    cases h
    rfl
  | n + 6 => cases h

theorem DType.code_lt (d : DType) : d.code < 6 := by
  cases d <;> decide

namespace Tensor

/-! ## Words -/

theorem toWord_lt (n : Int) : toWord n < 2 ^ 64 := by
  have hpow : Nat.pow 2 64 = 2 ^ 64 := rfl
  unfold toWord
  rw [hpow]
  omega

/-- The word of a number that takes less than 63 bits is the number. -/
theorem toWord_eq {n : Int} (h0 : 0 ≤ n) (h : n < 2 ^ 63) : toWord n = n.toNat := by
  have hpow : Nat.pow 2 64 = 2 ^ 64 := rfl
  unfold toWord
  rw [hpow]
  omega

/-- A number that takes less than 63 bits is the value of its word. -/
theorem ofWord_toWord {n : Int} (h0 : 0 ≤ n) (h : n < 2 ^ 63) : ofWord (toWord n) = n := by
  have hlow : n.toNat < Nat.pow 2 63 := by
    have hpow : Nat.pow 2 63 = 2 ^ 63 := rfl
    omega
  rw [toWord_eq h0 h, ofWord, if_pos hlow]
  exact Int.toNat_of_nonneg h0

/-- The labels of a shape are as many as the product of its words, which does not wrap. -/
theorem size_eq_words {t : Tensor} (hw : t.WellFormed) (hr : t.rows < 2 ^ 63) (hc : t.cols < 2 ^ 63)
    (hs : t.data.size < 2 ^ 64) : t.data.size = toWord t.rows * toWord t.cols % Nat.pow 2 64 := by
  obtain ⟨h0r, h0c, hsize⟩ := hw
  have hprod : toWord t.rows * toWord t.cols = t.data.size := by
    rw [toWord_eq h0r hr, toWord_eq h0c hc, ← Int.toNat_mul h0r h0c, ← hsize, Int.toNat_natCast]
  rw [hprod]
  exact (Nat.mod_eq_of_lt hs).symm

/-! ## Labels -/

/-- A label is read back from its eight bytes with all its bits. -/
theorem readLabel_labelBytes (v : Label) (rest : Bytes) : readLabel (labelBytes v ++ rest) = .ok (v, rest) := by
  have hbits : v.bits.toNat.toUInt64 = v.bits := UInt64.ofNat_toNat
  rw [readLabel, labelBytes, Wire.readFixed64_littleEndian v.bits.toNat_lt, ok_bind]
  simp only [hbits]
  rfl

@[simp] theorem length_labelBytes (v : Label) : (labelBytes v).length = 8 :=
  Wire.littleEndian_length 8 _

theorem length_packed (vs : List Label) : (vs.flatMap labelBytes).length = 8 * vs.length := by
  induction vs with
  | nil => rfl
  | cons v vs ih =>
    rw [List.flatMap_cons, List.length_append, ih, length_labelBytes, List.length_cons]
    omega

/-- Packed labels are read one after another, so that the last one stands in front. -/
theorem readPacked_packed (labels vs : List Label) :
    ∀ fuel : Nat, vs.length ≤ fuel → readPacked labels fuel (vs.flatMap labelBytes) = .ok (vs.reverse ++ labels) := by
  induction vs generalizing labels with
  | nil =>
    intro fuel _
    simp [readPacked]
  | cons v vs ih =>
    intro fuel hfuel
    obtain ⟨fuel, rfl⟩ : ∃ k, fuel = k + 1 := ⟨fuel - 1, by simp at hfuel; omega⟩
    have hsome : labelBytes v ++ vs.flatMap labelBytes ≠ [] := by
      intro h
      have hlen := congrArg List.length h
      simp at hlen
    have hrest := ih (v :: labels) fuel (by simp at hfuel; omega)
    rw [List.flatMap_cons, readPacked.eq_3 labels _ fuel hsome, readLabel_labelBytes, ok_bind]
    simp only [hrest, List.reverse_cons, List.append_assoc, List.singleton_append]

namespace CodecAux

/-! ## Fields -/

/-- The bytes `bs` take the reader from the draft `d` to the draft `d'`, whatever bytes follow. -/
def Reads (d : Draft) (bs : Bytes) (d' : Draft) : Prop :=
  ∀ (rest : Bytes) (fuel : Nat), (bs ++ rest).length ≤ fuel →
    ∃ left, rest.length ≤ left ∧ readFields d fuel (bs ++ rest) = readFields d' left rest

variable {d d' d'' : Draft} {bs bs' : Bytes}

/-- Without bytes, the draft stays as it is. -/
theorem Reads.nil (d : Draft) : Reads d [] d :=
  fun _ fuel h => ⟨fuel, h, rfl⟩

/-- What comes later starts from the draft of what came before. -/
theorem Reads.append (h : Reads d bs d') (h' : Reads d' bs' d'') : Reads d (bs ++ bs') d'' := by
  intro rest fuel hfuel
  rw [List.append_assoc] at hfuel ⊢
  obtain ⟨mid, hmid, heq⟩ := h (bs' ++ rest) fuel hfuel
  obtain ⟨left, hleft, heq'⟩ := h' rest mid hmid
  exact ⟨left, hleft, heq.trans heq'⟩

/-- A field is a tag and a value; it does to the draft what its value does. -/
theorem Reads.field {number : Nat} {type : Wire.WireType} {tag value : Bytes} (htag : Wire.IsTag number type tag)
    (h : ∀ rest, readField d number type (value ++ rest) = .ok (d', rest)) : Reads d (tag ++ value) d' := by
  intro rest fuel hfuel
  have hpos := htag.length_pos
  rw [List.append_assoc] at hfuel ⊢
  simp only [List.length_append] at hfuel
  obtain ⟨left, rfl⟩ : ∃ k, fuel = k + 1 := ⟨fuel - 1, by omega⟩
  have hsome : tag ++ (value ++ rest) ≠ [] := List.append_ne_nil_of_left_ne_nil (List.length_pos_iff.mp hpos) _
  refine ⟨left, by omega, ?_⟩
  rw [readFields.eq_3 d _ left hsome, htag.read]
  simp only [h rest]

/-- All bytes are read with as much fuel as there are bytes. -/
theorem Reads.result (h : Reads d bs d') : readFields d bs.length bs = .ok d' := by
  obtain ⟨left, _, heq⟩ := h [] bs.length (by simp)
  rw [List.append_nil] at heq
  rw [heq, readFields]

/-! ## The fields of the binary form -/

theorem reads_rows (d : Draft) {n : Nat} (h : n < 2 ^ 64) : Reads d (numberField rowsField n) { d with rows := n } := by
  refine Reads.field (Wire.isTag_tag (by decide) (by decide) (by decide)) fun rest => ?_
  rw [readField, if_pos ⟨rfl, rfl⟩, Wire.readVarint_varint h]
  rfl

theorem reads_cols (d : Draft) {n : Nat} (h : n < 2 ^ 64) : Reads d (numberField colsField n) { d with cols := n } := by
  refine Reads.field (Wire.isTag_tag (by decide) (by decide) (by decide)) fun rest => ?_
  rw [readField, if_neg (by decide), if_pos ⟨rfl, rfl⟩, Wire.readVarint_varint h]
  rfl

theorem reads_dtype (d : Draft) {n : Nat} (h : n < 2 ^ 64) : Reads d (numberField dtypeField n) { d with dtype := n } := by
  refine Reads.field (Wire.isTag_tag (by decide) (by decide) (by decide)) fun rest => ?_
  rw [readField, if_neg (by decide), if_neg (by decide), if_pos ⟨rfl, rfl⟩, Wire.readVarint_varint h]
  rfl

/-- A packed field puts its labels in front of those before, the last one first. -/
theorem reads_packed (d : Draft) {vs : List Label} (h : 8 * vs.length < 2 ^ 64) :
    Reads d (Wire.tag dataField .bytes ++ Wire.lengthPrefixed (vs.flatMap labelBytes))
      { d with labels := vs.reverse ++ d.labels } := by
  refine Reads.field (Wire.isTag_tag (by decide) (by decide) (by decide)) fun rest => ?_
  have hlen := length_packed vs
  rw [readField, if_neg (by decide), if_neg (by decide), if_neg (by decide), if_pos ⟨rfl, rfl⟩,
    Wire.readBytes_lengthPrefixed (by omega), ok_bind]
  dsimp only
  rw [readPacked_packed d.labels vs _ (by omega), ok_bind]
  rfl

/-- The labels of a tensor are read, also where there is no field for them. -/
theorem reads_labels (d : Draft) {t : Tensor} (h : 8 * t.data.size < 2 ^ 64) :
    Reads d (if t.data.isEmpty then [] else Wire.tag dataField .bytes ++ Wire.lengthPrefixed (t.data.toList.flatMap labelBytes))
      { d with labels := t.data.toList.reverse ++ d.labels } := by
  cases hempty : t.data.isEmpty with
  | true =>
    have hnil : t.data.toList = [] := by simpa using hempty
    rw [if_pos rfl, hnil]
    exact Reads.nil d
  | false =>
    rw [if_neg Bool.false_ne_true]
    exact reads_packed d (by simpa using h)

/-- The draft of a binary form: the numbers and the code of the domain as words, and the labels from last to first. -/
theorem reads_encode {t : Tensor} (h : 8 * t.data.size < 2 ^ 64) :
    Reads {} t.encode ⟨toWord t.rows, toWord t.cols, t.dtype.code, t.data.toList.reverse⟩ := by
  have hcode := t.dtype.code_lt
  have hlabels := reads_labels ⟨toWord t.rows, toWord t.cols, t.dtype.code, []⟩ h
  rw [List.append_nil] at hlabels
  have hnumbers := ((reads_rows {} (toWord_lt t.rows)).append (reads_cols _ (toWord_lt t.cols))).append
    (reads_dtype _ (show t.dtype.code < 2 ^ 64 by omega))
  exact hnumbers.append hlabels

end CodecAux

open CodecAux in
/-- A tensor that has the labels its shape calls for is read back from its binary form: the numbers of rows and columns, the
domain, and every label with all its bits. The numbers have to fit into 64 bits with a sign, and the labels into a length of
64 bits. -/
theorem decode_encode {t : Tensor} (hw : t.WellFormed) (hr : t.rows < 2 ^ 63) (hc : t.cols < 2 ^ 63)
    (hs : 8 * t.data.size < 2 ^ 64) : decode t.encode = .ok t := by
  have hread := (reads_encode hs).result
  have hsize := size_eq_words hw hr hc (by omega)
  have hcount : ¬ t.data.toList.reverse.length ≠ toWord t.rows * toWord t.cols % Nat.pow 2 64 := by
    rw [List.length_reverse, Array.length_toList, not_not]
    exact hsize
  obtain ⟨h0r, h0c, -⟩ := hw
  rw [decode, hread, ok_bind, Draft.tensor, if_neg hcount]
  simp only [DType.ofCode?_code, ofWord_toWord h0r hr, ofWord_toWord h0c hc, List.reverse_reverse, Array.toArray_toList]

namespace Sample

/-- Labels that are easily lost: a NaN with a payload, both infinities, both zeros and the least number above zero. -/
def special : Tensor :=
  ⟨2, 3, .float64, #[⟨0x7FF8000000000123⟩, ⟨0x7FF0000000000000⟩, ⟨0xFFF0000000000000⟩, ⟨0⟩, ⟨0x8000000000000000⟩, ⟨1⟩]⟩

end Sample

theorem decode_encode_sample : Sample.special.WellFormed ∧ Sample.special.rows < 2 ^ 63 ∧ Sample.special.cols < 2 ^ 63 ∧
    8 * Sample.special.data.size < 2 ^ 64 ∧ decode Sample.special.encode = .ok Sample.special :=
  ⟨⟨by decide, by decide, rfl⟩, by decide, by decide, by decide,
    decode_encode ⟨by decide, by decide, rfl⟩ (by decide) (by decide) (by decide)⟩

/-- Rows without labels are kept, although no field says anything about labels. -/
example : (decode (encode ⟨3, 0, .bool, #[]⟩)).toOption = some ⟨3, 0, .bool, #[]⟩ := by decide +kernel

end Tensor
end ModalGraph
