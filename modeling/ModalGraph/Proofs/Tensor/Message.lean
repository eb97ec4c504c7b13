import Mathlib.Data.List.Basic
import ModalGraph.Proofs.Tensor.Codec
import ModalGraph.Proofs.Wire.Message

/-!
# The tensor of a sequence of fields

The binary form of a tensor may have its fields in any order and more than once, its labels in packed fields and in fields of their
own, and fields of other messages, with groups in them, anywhere in between. What is read from it is said by the fields alone
(`decode_message`): the last number given for each dimension and for the domain, and the labels of all fields in order. Each field
does to the draft of the reader what it says (`Draft.absorb`), and takes its own bytes only. Of a field that is cut off, or whose
labels are, nothing is read.
-/

namespace ModalGraph
namespace Tensor

/-! ## What fields say -/

/-- The labels packed into some bytes, eight bytes each. -/
def unpacked (payload : Bytes) : List Label :=
  (List.range (payload.length / 8)).map fun i => ⟨(Wire.ofLittleEndian ((payload.drop (8 * i)).take 8)).toUInt64⟩

/-- The labels of a field. -/
def fieldLabels (f : Wire.Field) : List Label :=
  if f.number = dataField then
    match f.value with
    | .bytes payload => unpacked payload
    | .fixed64 n => [⟨n.toUInt64⟩]
    | _ => []
  else []

/-- The number that a field gives for field `k`. -/
def fieldNumber? (k : Nat) (f : Wire.Field) : Option Nat :=
  match f.value with
  | .varint n => if f.number = k then some n else none
  | _ => none

/-- The last number given for field `k`, and zero if there is none. -/
def lastNumber (k : Nat) (fields : List Wire.Field) : Nat :=
  (fields.filterMap (fieldNumber? k)).getLastD 0

/-- The labels of all fields. -/
def allLabels (fields : List Wire.Field) : List Label :=
  fields.flatMap fieldLabels

/-- The packed labels of a field are not cut off. -/
def WholeLabels (f : Wire.Field) : Prop :=
  f.number = dataField → ∀ payload, f.value = .bytes payload → 8 ∣ payload.length

/-! ## Packed labels -/

namespace MessageAux

theorem readLabel_eq {bs : Bytes} (h : 8 ≤ bs.length) :
    readLabel bs = .ok (⟨(Wire.ofLittleEndian (bs.take 8)).toUInt64⟩, bs.drop 8) := by
  rw [readLabel, Wire.readFixed64, Wire.take, if_neg (by omega)]
  rfl

theorem unpacked_eq {bs : Bytes} (h : 8 ≤ bs.length) :
    unpacked bs = ⟨(Wire.ofLittleEndian (bs.take 8)).toUInt64⟩ :: unpacked (bs.drop 8) := by
  have hcount : bs.length / 8 = (bs.drop 8).length / 8 + 1 := by
    rw [List.length_drop]
    omega
  rw [unpacked, hcount, List.range_succ_eq_map, List.map_cons, List.map_map, unpacked]
  congr 1
  refine List.map_congr_left fun i _ => ?_
  rw [Function.comp_apply, List.drop_drop, Nat.succ_eq_add_one, Nat.mul_add, Nat.add_comm (8 * i)]

/-- Packed labels are read if they are whole. -/
theorem readPacked_eq (labels : List Label) {fuel : Nat} {bs : Bytes} (h : bs.length ≤ fuel) : readPacked labels fuel bs =
    if 8 ∣ bs.length then .ok ((unpacked bs).reverse ++ labels) else .error .truncated := by
  induction fuel generalizing labels bs with
  | zero =>
    obtain rfl : bs = [] := List.length_eq_zero_iff.mp (Nat.le_zero.mp h)
    rfl
  | succ fuel ih =>
    by_cases hnil : bs = []
    · subst hnil
      rfl
    by_cases hlen : 8 ≤ bs.length
    · have hdvd : 8 ∣ (bs.drop 8).length ↔ 8 ∣ bs.length := by
        rw [List.length_drop]
        omega
      rw [readPacked.eq_3 labels _ fuel hnil, readLabel_eq hlen, ok_bind]
      dsimp only
      rw [ih _ (by rw [List.length_drop]; omega), unpacked_eq hlen]
      simp only [hdvd, List.reverse_cons, List.append_assoc, List.singleton_append]
    · have hpos := List.length_pos_iff.mpr hnil
      rw [readPacked.eq_3 labels _ fuel hnil, readLabel, Wire.readFixed64, Wire.take, if_pos (by omega), if_neg (by omega)]
      rfl

end MessageAux

open MessageAux CodecAux

/-! ## One field -/

/-- What a field does to a draft. -/
def Draft.absorb (d : Draft) (f : Wire.Field) : Draft where
  rows := (fieldNumber? rowsField f).getD d.rows
  cols := (fieldNumber? colsField f).getD d.cols
  dtype := (fieldNumber? dtypeField f).getD d.dtype
  labels := (fieldLabels f).reverse ++ d.labels

namespace MessageAux

/-- A field that says nothing is skipped. -/
theorem readField_skip {number : Nat} (value : Wire.Value) {bs rest : Bytes} (d : Draft)
    (hnumber : value.type = .varint → number ≠ rowsField ∧ number ≠ colsField ∧ number ≠ dtypeField)
    (hlabels : number = dataField → value.type ≠ .bytes ∧ value.type ≠ .fixed64)
    (h : Wire.skipValue number value.type bs = .ok rest) :
    readField d number value.type bs = .ok (d.absorb ⟨number, value⟩, rest) := by
  have hsame : d.absorb ⟨number, value⟩ = d := by
    cases value with
    | varint n =>
      obtain ⟨hrows, hcols, hdtype⟩ := hnumber rfl
      simp [Draft.absorb, fieldNumber?, fieldLabels, hrows, hcols, hdtype]
    | fixed64 n =>
      have hne : number ≠ dataField := fun hdata => (hlabels hdata).2 rfl
      simp [Draft.absorb, fieldNumber?, fieldLabels, hne]
    | bytes payload =>
      have hne : number ≠ dataField := fun hdata => (hlabels hdata).1 rfl
      simp [Draft.absorb, fieldNumber?, fieldLabels, hne]
    | group => simp [Draft.absorb, fieldNumber?, fieldLabels]
    | fixed32 n => simp [Draft.absorb, fieldNumber?, fieldLabels]
  rw [readField, if_neg fun hc => (hnumber hc.2).1 hc.1, if_neg fun hc => (hnumber hc.2).2.1 hc.1,
    if_neg fun hc => (hnumber hc.2).2.2 hc.1, if_neg fun hc => (hlabels hc.1).1 hc.2, if_neg fun hc => (hlabels hc.1).2 hc.2, h, hsame]
  rfl

theorem readField_varint {n : Nat} {v : Bytes} (h : Wire.IsVarint n v) (number : Nat) (d : Draft) (rest : Bytes) :
    readField d number .varint (v ++ rest) = .ok (d.absorb ⟨number, .varint n⟩, rest) := by
  by_cases hrows : number = rowsField
  · subst hrows
    rw [readField, if_pos ⟨rfl, rfl⟩, h.read]
    rfl
  by_cases hcols : number = colsField
  · subst hcols
    rw [readField, if_neg (by decide), if_pos ⟨rfl, rfl⟩, h.read]
    rfl
  by_cases hdtype : number = dtypeField
  · subst hdtype
    rw [readField, if_neg (by decide), if_neg (by decide), if_pos ⟨rfl, rfl⟩, h.read]
    rfl
  · exact readField_skip (.varint n) d (fun _ => ⟨hrows, hcols, hdtype⟩) (by simp)
      ((Wire.IsScalar.varint h).skip number rest)

theorem readField_fixed64 {n : Nat} (lt : n < 2 ^ 64) (number : Nat) (d : Draft) (rest : Bytes) :
    readField d number .fixed64 (Wire.littleEndian 8 n ++ rest) = .ok (d.absorb ⟨number, .fixed64 n⟩, rest) := by
  by_cases hdata : number = dataField
  · subst hdata
    rw [readField, if_neg (by decide), if_neg (by decide), if_neg (by decide), if_neg (by decide), if_pos ⟨rfl, rfl⟩, readLabel,
      Wire.readFixed64_littleEndian lt]
    rfl
  · exact readField_skip (.fixed64 n) d (by simp) (fun h => absurd h hdata) ((Wire.IsScalar.fixed64 lt).skip number rest)

theorem readBytes_eq {payload bs : Bytes} (h : Wire.IsVarint payload.length bs) (rest : Bytes) :
    Wire.readBytes (bs ++ payload ++ rest) = .ok (payload, rest) := by
  rw [Wire.readBytes, List.append_assoc, h.read]
  exact Wire.take_append rfl rest

/-- A field of packed labels is read if these are whole. -/
theorem readField_bytes {payload bs : Bytes} (h : Wire.IsVarint payload.length bs) (number : Nat) (d : Draft) (rest : Bytes) :
    (WholeLabels ⟨number, .bytes payload⟩ →
        readField d number .bytes (bs ++ payload ++ rest) = .ok (d.absorb ⟨number, .bytes payload⟩, rest)) ∧
      (¬WholeLabels ⟨number, .bytes payload⟩ → readField d number .bytes (bs ++ payload ++ rest) = .error .truncated) := by
  by_cases hdata : number = dataField
  · subst hdata
    have hread : readField d dataField .bytes (bs ++ payload ++ rest) =
        (readPacked d.labels payload.length payload >>= fun labels => .ok ({ d with labels := labels }, rest)) := by
      rw [readField, if_neg (by decide), if_neg (by decide), if_neg (by decide), if_pos ⟨rfl, rfl⟩, readBytes_eq h]
      rfl
    rw [hread, readPacked_eq d.labels (Nat.le_refl _)]
    constructor
    · intro hwhole
      rw [if_pos (hwhole rfl payload rfl)]
      rfl
    · intro hcut
      rw [if_neg fun hdvd => hcut fun _ payload' hpayload => Wire.Value.bytes.inj hpayload ▸ hdvd]
      rfl
  · refine ⟨fun _ => ?_, fun hcut => absurd (fun h => absurd h hdata) hcut⟩
    exact readField_skip (.bytes payload) d (by simp) (fun h => absurd h hdata) ((Wire.IsScalar.bytes h).skip number rest)

theorem readField_scalar {value : Wire.Value} {v : Bytes} (h : Wire.IsScalar value v) (number : Nat) (d : Draft) (rest : Bytes) :
    (WholeLabels ⟨number, value⟩ → readField d number value.type (v ++ rest) = .ok (d.absorb ⟨number, value⟩, rest)) ∧
      (¬WholeLabels ⟨number, value⟩ → readField d number value.type (v ++ rest) = .error .truncated) := by
  cases h with
  | varint h => exact ⟨fun _ => readField_varint h number d rest, fun hcut => absurd (by simp [WholeLabels]) hcut⟩
  | fixed64 lt => exact ⟨fun _ => readField_fixed64 lt number d rest, fun hcut => absurd (by simp [WholeLabels]) hcut⟩
  | bytes h => exact readField_bytes h number d rest
  | @fixed32 n lt =>
    refine ⟨fun _ => ?_, fun hcut => absurd (by simp [WholeLabels]) hcut⟩
    exact readField_skip (.fixed32 n) d (by simp) (by simp) ((Wire.IsScalar.fixed32 lt).skip number rest)

theorem readField_group {depth number : Nat} {inner : List Wire.Field} {v t : Bytes} (hdepth : depth + 1 = Wire.maxDepth)
    (content : Wire.IsFields depth inner v) (stop : Wire.IsTag number .endGroup t) (d : Draft) (rest : Bytes) :
    readField d number .startGroup (v ++ t ++ rest) = .ok (d.absorb ⟨number, .group⟩, rest) := by
  refine readField_skip .group d (by simp) (by simp) ?_
  show Wire.skipGroup ((v ++ t ++ rest).length + 1) (Wire.maxDepth - 1) number (v ++ t ++ rest) = .ok rest
  rw [← hdepth, Nat.add_sub_cancel, List.append_assoc]
  exact content.skip stop rest (by simp only [List.length_append]; omega)

/-! ## All fields -/

/-- Whole fields do to a draft what they say. -/
theorem reads_fields {depth : Nat} {fields : List Wire.Field} {bs : Bytes} (h : Wire.IsFields depth fields bs)
    (hdepth : depth = Wire.maxDepth) (hwhole : ∀ f ∈ fields, WholeLabels f) (d : Draft) : Reads d bs (fields.foldl Draft.absorb d) := by
  induction h generalizing d with
  | nil => exact Reads.nil d
  | scalar start scalar _ ih =>
    obtain ⟨hfirst, hrest⟩ := List.forall_mem_cons.mp hwhole
    exact (Reads.field start fun rest => (readField_scalar scalar _ d rest).1 hfirst).append (ih hdepth hrest _)
  | group start content stop _ _ ih =>
    obtain ⟨-, hrest⟩ := List.forall_mem_cons.mp hwhole
    exact (Reads.field start fun rest => readField_group hdepth content stop d rest).append (ih hdepth hrest _)

/-- A field whose labels are cut off is not read, nor what comes after it. -/
theorem fails_of_cut {depth : Nat} {fields : List Wire.Field} {bs : Bytes} (h : Wire.IsFields depth fields bs)
    (hdepth : depth = Wire.maxDepth) (hcut : ∃ f ∈ fields, ¬WholeLabels f) (d : Draft) (rest : Bytes) {fuel : Nat}
    (hfuel : (bs ++ rest).length ≤ fuel) : ∃ e, readFields d fuel (bs ++ rest) = .error e := by
  induction h generalizing d fuel with
  | nil => exact absurd hcut (by simp)
  | @scalar depth number value fields t v bs start scalar _ ih =>
    rw [List.append_assoc] at hfuel ⊢
    by_cases hwhole : WholeLabels ⟨number, value⟩
    · have hfield := fun rest => (readField_scalar scalar number d rest).1 hwhole
      obtain ⟨left, hleft, heq⟩ := Reads.field start hfield (bs ++ rest) fuel hfuel
      rw [heq]
      exact ih hdepth (((List.exists_mem_cons_iff ..).mp hcut).resolve_left (not_not.mpr hwhole)) _ hleft
    · have hpos := start.length_pos
      have hsome : t ++ v ++ (bs ++ rest) ≠ [] := by
        rw [List.append_assoc]
        exact List.append_ne_nil_of_left_ne_nil (List.length_pos_iff.mp hpos) _
      simp only [List.length_append] at hfuel
      obtain ⟨fuel, rfl⟩ : ∃ k, fuel = k + 1 := ⟨fuel - 1, by omega⟩
      refine ⟨.wire (some number) .truncated, ?_⟩
      rw [readFields.eq_3 d _ fuel hsome, List.append_assoc, start.read]
      simp only [(readField_scalar scalar number d (bs ++ rest)).2 hwhole]
  | @group depth number inner fields t v t' bs start content stop _ _ ih =>
    rw [List.append_assoc] at hfuel ⊢
    have hwhole : WholeLabels ⟨number, .group⟩ := by simp [WholeLabels]
    obtain ⟨left, hleft, heq⟩ := Reads.field start (fun rest => readField_group hdepth content stop d rest) (bs ++ rest) fuel hfuel
    rw [heq]
    exact ih hdepth (((List.exists_mem_cons_iff ..).mp hcut).resolve_left (not_not.mpr hwhole)) _ hleft

theorem foldl_absorb (fields : List Wire.Field) (d : Draft) : fields.foldl Draft.absorb d =
    ⟨(fields.filterMap (fieldNumber? rowsField)).getLastD d.rows, (fields.filterMap (fieldNumber? colsField)).getLastD d.cols,
      (fields.filterMap (fieldNumber? dtypeField)).getLastD d.dtype, (allLabels fields).reverse ++ d.labels⟩ := by
  have hlast : ∀ (k : Nat) (f : Wire.Field) (fields : List Wire.Field) (n : Nat),
      ((f :: fields).filterMap (fieldNumber? k)).getLastD n =
        (fields.filterMap (fieldNumber? k)).getLastD ((fieldNumber? k f).getD n) := by
    intro k f fields n
    rw [List.filterMap_cons]
    cases fieldNumber? k f with
    | none => rfl
    | some m => exact List.getLastD_cons
  induction fields generalizing d with
  | nil => rfl
  | cons f fields ih =>
    have hlabels : (allLabels (f :: fields)).reverse ++ d.labels = (allLabels fields).reverse ++ (d.absorb f).labels := by
      rw [allLabels, List.flatMap_cons, List.reverse_append, List.append_assoc]
      rfl
    rw [List.foldl_cons, ih, hlast, hlast, hlast, hlabels]
    rfl

/-! ## Part of a field -/

theorem steady_readLabel : Wire.Steady readLabel :=
  Wire.steady_readFixed64.bind fun n => Wire.steady_return (⟨n.toUInt64⟩ : Label)

theorem steady_readField (d : Draft) (number : Nat) (type : Wire.WireType) : Wire.Steady (readField d number type) := by
  intro bs rest r h more
  rw [readField] at h ⊢
  split at h
  · rename_i hrows
    rw [if_pos hrows]
    exact (Wire.steady_readVarint.bind fun n => Wire.steady_return { d with rows := n }) h more
  rename_i hrows
  rw [if_neg hrows]
  split at h
  · rename_i hcols
    rw [if_pos hcols]
    exact (Wire.steady_readVarint.bind fun n => Wire.steady_return { d with cols := n }) h more
  rename_i hcols
  rw [if_neg hcols]
  split at h
  · rename_i hdtype
    rw [if_pos hdtype]
    exact (Wire.steady_readVarint.bind fun n => Wire.steady_return { d with dtype := n }) h more
  rename_i hdtype
  rw [if_neg hdtype]
  split at h
  · rename_i hpacked
    rw [if_pos hpacked]
    obtain ⟨⟨packed, mid⟩, hread, hstep⟩ := bind_ok h
    obtain ⟨labels, hlabels, heq⟩ := bind_ok hstep
    cases heq
    rw [Wire.steady_readBytes hread more, ok_bind]
    dsimp only
    rw [hlabels]
    rfl
  rename_i hpacked
  rw [if_neg hpacked]
  split at h
  · rename_i hlabel
    rw [if_pos hlabel]
    exact (steady_readLabel.bind fun v => Wire.steady_return { d with labels := v :: d.labels }) h more
  · rename_i hlabel
    rw [if_neg hlabel]
    obtain ⟨mid, hskip, heq⟩ := bind_ok h
    cases heq
    rw [Wire.skipValue_append hskip more]
    rfl

/-- The tag of a field, and its value, of which nothing is left if it can be read. -/
theorem field_read {depth : Nat} {f : Wire.Field} {bs : Bytes} (h : Wire.IsFields depth [f] bs) (hdepth : depth = Wire.maxDepth)
    (d : Draft) : ∃ v, Wire.readTag bs = .ok ((f.number, f.value.type), v) ∧
      ∀ d' rest, readField d f.number f.value.type v = .ok (d', rest) → rest = [] := by
  cases h with
  | @scalar _ number value _ t v _ start scalar hnil =>
    cases hnil
    rw [List.append_nil]
    refine ⟨v, start.read v, fun d' rest hread => ?_⟩
    have hvalue := readField_scalar scalar number d []
    rw [List.append_nil] at hvalue
    by_cases hwhole : WholeLabels ⟨number, value⟩
    · rw [hvalue.1 hwhole] at hread
      exact (Prod.mk.inj (Except.ok.inj hread)).2.symm
    · rw [hvalue.2 hwhole] at hread
      cases hread
  | @group depth number inner _ t v t' _ start content stop hnil =>
    cases hnil
    rw [List.append_nil]
    refine ⟨v ++ t', start.read _, fun d' rest hread => ?_⟩
    have hvalue := readField_group hdepth content stop d []
    rw [List.append_nil] at hvalue
    exact (Prod.mk.inj (Except.ok.inj (hread.symm.trans hvalue))).2

/-- Part of a field is not read. -/
theorem fails_of_part {f : Wire.Field} {p s : Bytes} (h : Wire.IsFields Wire.maxDepth [f] (p ++ s)) (hp : p ≠ []) (hs : s ≠ [])
    (d : Draft) (fuel : Nat) : ∃ e, readFields d fuel p = .error e := by
  obtain ⟨v, htag, hvalue⟩ := field_read h rfl d
  cases fuel with
  | zero =>
    obtain ⟨b, p, rfl⟩ := List.exists_cons_of_ne_nil hp
    exact ⟨_, rfl⟩
  | succ fuel =>
    rw [readFields.eq_3 d _ fuel hp]
    split
    · exact ⟨_, rfl⟩
    · rename_i number type rest htag'
      have hboth := Wire.steady_readTag htag' s
      rw [htag] at hboth
      cases hboth
      split
      · exact ⟨_, rfl⟩
      · rename_i d' rest' hread
        have hnil := hvalue _ _ (steady_readField d _ _ hread s)
        exact absurd (List.append_eq_nil_iff.mp hnil).2 hs

theorem ofWord_natCast {n : Nat} (h : n < 2 ^ 63) : ofWord n = n :=
  if_pos h

/-- The tensor of a draft whose dimensions are counted with a sign: there is one exactly if it has its labels and a domain. -/
theorem draft_tensor {d : Draft} (hrows : d.rows < 2 ^ 63) (hcols : d.cols < 2 ^ 63) (hprod : d.rows * d.cols < 2 ^ 63) :
    ((∃ t, d.tensor = .ok t) ↔ d.labels.length = d.rows * d.cols ∧ d.dtype < 6) ∧
      ∀ t, d.tensor = .ok t → t.rows = d.rows ∧ t.cols = d.cols ∧ t.dtype.code = d.dtype ∧ t.data.toList = d.labels.reverse := by
  have hmod : d.rows * d.cols % Nat.pow 2 64 = d.rows * d.cols := Nat.mod_eq_of_lt (Nat.lt_trans hprod (by decide))
  rw [Draft.tensor, hmod]
  by_cases hcount : d.labels.length = d.rows * d.cols
  · rw [if_neg (not_not.mpr hcount)]
    cases hcode : DType.ofCode? d.dtype with
    | none =>
      have hlarge : ¬d.dtype < 6 := fun hlt => by
        rw [DType.ofCode?, List.getElem?_eq_none_iff] at hcode
        exact absurd hlt (Nat.not_lt.mpr hcode)
      simp [hlarge]
    | some dtype =>
      have hdtype := DType.code_of_ofCode? hcode
      refine ⟨⟨fun _ => ⟨hcount, hdtype ▸ dtype.code_lt⟩, fun _ => ⟨_, rfl⟩⟩, fun t ht => ?_⟩
      obtain rfl := Except.ok.inj ht
      exact ⟨ofWord_natCast hrows, ofWord_natCast hcols, hdtype, rfl⟩
  · rw [if_pos hcount]
    simp [hcount]

end MessageAux

/-- What is read from a sequence of fields. If the labels of no field are cut off, and the dimensions and their product are counted with
a sign, there is a tensor exactly if there are as many labels as they say and the domain is known, and it is the tensor with the last
number given for each, and all labels in order; no other field counts. If the labels of a field are cut off, or the bytes end in a
field, nothing is read. -/
theorem decode_message {fields : List Wire.Field} {bs : Bytes} (h : Wire.IsFields Wire.maxDepth fields bs) :
    ((∀ f ∈ fields, WholeLabels f) → lastNumber rowsField fields < 2 ^ 63 → lastNumber colsField fields < 2 ^ 63 →
      lastNumber rowsField fields * lastNumber colsField fields < 2 ^ 63 →
        ((∃ t, decode bs = .ok t) ↔
          (allLabels fields).length = lastNumber rowsField fields * lastNumber colsField fields ∧ lastNumber dtypeField fields < 6) ∧
        ∀ t, decode bs = .ok t → t.rows = lastNumber rowsField fields ∧ t.cols = lastNumber colsField fields ∧
          t.dtype.code = lastNumber dtypeField fields ∧ t.data.toList = allLabels fields) ∧
      ((∃ f ∈ fields, ¬WholeLabels f) → ∃ e, decode bs = .error e) ∧
      ∀ f p s, Wire.IsFields Wire.maxDepth [f] (p ++ s) → p ≠ [] → s ≠ [] → ∃ e, decode (bs ++ p) = .error e := by
  refine ⟨fun hwhole hrows hcols hprod => ?_, fun hcut => ?_, fun f p s hf hp hs => ?_⟩
  · have hread := (reads_fields h rfl hwhole {}).result
    rw [foldl_absorb, List.append_nil] at hread
    have htensor := draft_tensor (d := ⟨lastNumber rowsField fields, lastNumber colsField fields, lastNumber dtypeField fields,
      (allLabels fields).reverse⟩) hrows hcols hprod
    rw [List.length_reverse, List.reverse_reverse] at htensor
    rw [decode, hread]
    exact htensor
  · obtain ⟨e, he⟩ := fails_of_cut h rfl hcut {} [] (Nat.le_refl _)
    rw [List.append_nil] at he
    exact ⟨e, by rw [decode, he]; rfl⟩
  · have hfails : ∃ e, readFields {} (bs ++ p).length (bs ++ p) = .error e := by
      by_cases hcut : ∃ f ∈ fields, ¬WholeLabels f
      · exact fails_of_cut h rfl hcut {} p (Nat.le_refl _)
      · have hwhole : ∀ f ∈ fields, WholeLabels f := by
          simpa only [not_exists, not_and, not_not] using hcut
        obtain ⟨left, -, heq⟩ := reads_fields h rfl hwhole {} p _ (Nat.le_refl _)
        rw [heq]
        exact fails_of_part hf hp hs _ left
    obtain ⟨e, he⟩ := hfails
    exact ⟨e, by rw [decode, he]; rfl⟩

namespace Sample

/-- Two rows of one label. The number of rows is given twice, and a field of another message, which is a group, comes in between. -/
def mixed : List Wire.Field :=
  [⟨rowsField, .varint 9⟩, ⟨7, .group⟩, ⟨colsField, .varint 1⟩, ⟨dataField, .bytes (labelBytes Label.one)⟩, ⟨rowsField, .varint 2⟩,
    ⟨dataField, .fixed64 0⟩]

/-- The bytes of a group with a field in it. -/
def group : Bytes :=
  Wire.tag 7 .startGroup ++ (Wire.tag dataField .fixed32 ++ Wire.littleEndian 4 5 ++ [] ++ Wire.tag 7 .endGroup)

/-- The bytes of these fields. The number of columns takes two bytes, although it needs only one. -/
def mixedBytes : Bytes :=
  numberField rowsField 9 ++ (group ++ (Wire.tag colsField .varint ++ [0x81, 0x00] ++
    (Wire.tag dataField .bytes ++ Wire.lengthPrefixed (labelBytes Label.one) ++
      (numberField rowsField 2 ++ (Wire.tag dataField .fixed64 ++ Wire.littleEndian 8 0 ++ [])))))

theorem isFields_mixed : Wire.IsFields Wire.maxDepth mixed mixedBytes := by
  have htag : ∀ number type, 0 < number → number ≤ Wire.maxFieldNumber → type ≠ .reserved →
      Wire.IsTag number type (Wire.tag number type) := fun _ _ => Wire.isTag_tag
  have hgroups : Wire.Groups ((0x81 : UInt8).toNat - 128 + 128 * (0x00 : UInt8).toNat) [0x81, 0x00] :=
    .more (by decide) (.last (by decide))
  have hcols : Wire.IsVarint 1 [0x81, 0x00] := ⟨hgroups, by decide, by decide⟩
  have hinner : Wire.IsFields 10000 [⟨dataField, .fixed32 5⟩] (Wire.tag dataField .fixed32 ++ Wire.littleEndian 4 5 ++ []) :=
    .scalar (htag _ _ (by decide) (by decide) (by decide)) (.fixed32 (by decide)) .nil
  refine .scalar (htag _ _ (by decide) (by decide) (by decide)) (.varint (Wire.isVarint_varint (by decide))) ?_
  refine .group (htag _ _ (by decide) (by decide) (by decide)) hinner (htag _ _ (by decide) (by decide) (by decide)) ?_
  refine .scalar (htag _ _ (by decide) (by decide) (by decide)) (.varint hcols) ?_
  refine .scalar (htag _ _ (by decide) (by decide) (by decide)) (.bytes (Wire.isVarint_varint (by decide))) ?_
  refine .scalar (htag _ _ (by decide) (by decide) (by decide)) (.varint (Wire.isVarint_varint (by decide))) ?_
  exact .scalar (htag _ _ (by decide) (by decide) (by decide)) (.fixed64 (by decide)) .nil

end Sample

theorem decode_message_mixed : Wire.IsFields Wire.maxDepth Sample.mixed Sample.mixedBytes ∧
    (∃ t, decode Sample.mixedBytes = .ok t ∧ t.rows = 2 ∧ t.cols = 1 ∧ t.dtype = .float64 ∧
      t.data.toList = [Label.one, Label.zero]) ∧
    ∃ e, decode (Sample.mixedBytes ++ [0x08]) = .error e := by
  obtain ⟨hread, -, hpart⟩ := decode_message Sample.isFields_mixed
  have hwhole : ∀ f ∈ Sample.mixed, WholeLabels f := by
    simp [Sample.mixed, WholeLabels]
  obtain ⟨hok, htensor⟩ := hread hwhole (by decide) (by decide) (by decide)
  refine ⟨Sample.isFields_mixed, ?_, ?_⟩
  · obtain ⟨t, ht⟩ := hok.mpr ⟨by decide +kernel, by decide⟩
    obtain ⟨hrows, hcols, hdtype, hdata⟩ := htensor t ht
    refine ⟨t, ht, hrows, hcols, ?_, ?_⟩
    · exact Option.some.inj ((DType.ofCode?_code t.dtype).symm.trans (congrArg DType.ofCode? hdtype))
    · rw [hdata]
      decide +kernel
  · have hfield : Wire.IsFields Wire.maxDepth [⟨rowsField, .varint 9⟩] (Wire.tag rowsField .varint ++ Wire.varint 9 ++ []) :=
      .scalar (Wire.isTag_tag (by decide) (by decide) (by decide)) (.varint (Wire.isVarint_varint (by decide))) .nil
    have hbytes : Wire.tag rowsField .varint ++ Wire.varint 9 ++ [] = [0x08] ++ [0x09] := by decide +kernel
    rw [hbytes] at hfield
    exact hpart _ _ _ hfield (List.cons_ne_nil _ _) (List.cons_ne_nil _ _)

end Tensor
end ModalGraph
