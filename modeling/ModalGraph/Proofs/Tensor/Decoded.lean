import ModalGraph.Proofs.Tensor.Codec
import ModalGraph.Proofs.Tensor.Rows
import ModalGraph.Proofs.Wire.Progress

/-!
# The tensors that can be read from bytes

The reader compares the number of labels with the product of the two dimensions in words of 64 bits and then takes each dimension
as a number with sign. So every tensor that is read has as many labels as the product of its dimensions says modulo 2 ^ 64
(`decode_ok`), and it is well-formed exactly where no dimension has come out negative and the product does not wrap
(`wellFormed_of_decode`): always, for one, where both dimensions are numbers of 32 bits, as the binary form has them. Nothing
else keeps the product from wrapping (`decode_wraps`).
-/

namespace ModalGraph
namespace Tensor

/-! ## Words -/

/-- A word taken as a number with sign is the same word. -/
theorem toWord_ofWord {n : Nat} (h : n < 2 ^ 64) : toWord (ofWord n) = n := by
  have hpow : Nat.pow 2 64 = 2 ^ 64 := rfl
  have hhalf : Nat.pow 2 63 = 2 ^ 63 := rfl
  rw [toWord, ofWord, hpow, hhalf]
  split <;> omega

/-- The product of the words of two numbers that are not negative is their product. -/
theorem words_mul {r c : Int} (hr : 0 ≤ r) (hc : 0 ≤ c) (hr' : r < 2 ^ 63) (hc' : c < 2 ^ 63) :
    ((toWord r * toWord c : Nat) : Int) = r * c := by
  rw [toWord_eq hr hr', toWord_eq hc hc', Int.natCast_mul, Int.toNat_of_nonneg hr, Int.toNat_of_nonneg hc]

theorem ofWord_lt {n : Nat} (h : n < 2 ^ 64) : ofWord n < 2 ^ 63 := by
  have hpow : Nat.pow 2 64 = 2 ^ 64 := rfl
  have hhalf : Nat.pow 2 63 = 2 ^ 63 := rfl
  rw [ofWord, hpow, hhalf]
  split <;> omega

namespace DecodedAux

/-! ## What the reader keeps -/

/-- What the reader knows of its draft with some bytes left of `total` bytes: the dimensions are words, and each label has taken
eight bytes. -/
structure Draws (total : Nat) (d : Draft) (left : Bytes) : Prop where
  rows : d.rows < 2 ^ 64
  cols : d.cols < 2 ^ 64
  labels : 8 * d.labels.length + left.length ≤ total

variable {total : Nat} {d d' : Draft} {bs rest : Bytes}

/-- Bytes that are only skipped change nothing. -/
theorem Draws.skip (h : Draws total d bs) (hrest : rest.length ≤ bs.length) : Draws total d rest :=
  ⟨h.rows, h.cols, by have := h.labels; omega⟩

theorem readLabel_ok {v : Label} (h : readLabel bs = .ok (v, rest)) : 8 + rest.length = bs.length := by
  obtain ⟨⟨n, rest'⟩, hread, heq⟩ := bind_ok h
  cases heq
  exact Wire.readFixed64_ok hread

/-- Packed labels take eight bytes each. -/
theorem readPacked_ok {labels vs : List Label} {fuel : Nat} (h : readPacked labels fuel bs = .ok vs) :
    8 * vs.length = 8 * labels.length + bs.length := by
  induction fuel generalizing labels bs with
  | zero =>
    cases bs with
    | nil =>
      cases h
      rfl
    | cons b bs => cases h
  | succ fuel ih =>
    cases bs with
    | nil =>
      cases h
      rfl
    | cons b bs =>
      obtain ⟨⟨v, left⟩, hlabel, hgo⟩ := bind_ok h
      have hleft := readLabel_ok hlabel
      have hlen := ih hgo
      rw [List.length_cons] at hlen
      omega

/-- One field. -/
theorem Draws.field {number : Nat} {type : Wire.WireType} (h : Draws total d bs)
    (hread : readField d number type bs = .ok (d', rest)) : Draws total d' rest := by
  rw [readField] at hread
  split at hread
  · obtain ⟨⟨n, left⟩, hvalue, heq⟩ := bind_ok hread
    cases heq
    obtain ⟨hn, hlen⟩ := Wire.readVarint_ok hvalue
    exact ⟨hn, h.cols, (h.skip hlen.le).labels⟩
  split at hread
  · obtain ⟨⟨n, left⟩, hvalue, heq⟩ := bind_ok hread
    cases heq
    obtain ⟨hn, hlen⟩ := Wire.readVarint_ok hvalue
    exact ⟨h.rows, hn, (h.skip hlen.le).labels⟩
  split at hread
  · obtain ⟨⟨n, left⟩, hvalue, heq⟩ := bind_ok hread
    cases heq
    obtain ⟨-, hlen⟩ := Wire.readVarint_ok hvalue
    exact ⟨h.rows, h.cols, (h.skip hlen.le).labels⟩
  split at hread
  · obtain ⟨⟨packed, left⟩, hvalue, hlabels⟩ := bind_ok hread
    obtain ⟨vs, hpacked, heq⟩ := bind_ok hlabels
    cases heq
    have hlen := Wire.readBytes_ok hvalue
    have hcount := readPacked_ok hpacked
    have hlabels := h.labels
    exact ⟨h.rows, h.cols, by dsimp only; omega⟩
  split at hread
  · obtain ⟨⟨v, left⟩, hvalue, heq⟩ := bind_ok hread
    cases heq
    have hlen := readLabel_ok hvalue
    have hlabels := h.labels
    exact ⟨h.rows, h.cols, by simp only [List.length_cons]; omega⟩
  · obtain ⟨left, hskip, heq⟩ := bind_ok hread
    cases heq
    exact h.skip (Wire.skipValue_ok hskip)

/-- All fields, until no byte is left. -/
theorem Draws.fields {fuel : Nat} (h : Draws total d bs) (hread : readFields d fuel bs = .ok d') : Draws total d' [] := by
  induction fuel generalizing d bs with
  | zero =>
    cases bs with
    | nil =>
      cases hread
      exact h
    | cons b bs => cases hread
  | succ fuel ih =>
    cases bs with
    | nil =>
      cases hread
      exact h
    | cons b bs =>
      rw [readFields.eq_3 _ _ _ (List.cons_ne_nil b bs)] at hread
      split at hread
      · cases hread
      · next number type rest htag =>
        split at hread
        · cases hread
        · next d₁ rest₁ hfield =>
          exact ih ((h.skip (Wire.readTag_ok htag).le).field hfield) hread

end DecodedAux

open DecodedAux

/-! ## What is read -/

/-- A tensor that is read has dimensions of 64 bits with sign, and as many labels as their product in words says; each label has
taken eight bytes. -/
theorem decode_ok {bs : Bytes} {x : Tensor} (h : decode bs = .ok x) :
    x.rows < 2 ^ 63 ∧ x.cols < 2 ^ 63 ∧ x.data.size = toWord x.rows * toWord x.cols % 2 ^ 64 ∧ 8 * x.data.size ≤ bs.length := by
  obtain ⟨d, hread, htensor⟩ := bind_ok h
  have hempty : Draws bs.length {} bs := ⟨by decide, by decide, by simp⟩
  obtain ⟨hrows, hcols, hlabels⟩ := hempty.fields hread
  rw [Draft.tensor] at htensor
  split at htensor
  · cases htensor
  · next hcount =>
    split at htensor
    · cases htensor
    · cases htensor
      refine ⟨ofWord_lt hrows, ofWord_lt hcols, ?_, by simpa using hlabels⟩
      rw [toWord_ofWord hrows, toWord_ofWord hcols, List.size_toArray, List.length_reverse]
      exact not_not.mp hcount

/-- Every row of a well-formed tensor is in range, as long as its labels can be counted with a sign. -/
theorem row?_of_wellFormed {x : Tensor} (h : x.WellFormed) (hsize : x.data.size < 2 ^ 63) {i : Int} (h0 : 0 ≤ i)
    (hi : i < x.rows) : ∃ r, x.row? i = some r ∧ (r.length : Int) = x.cols := by
  obtain ⟨-, hcols, hcount⟩ := h
  have hlow : 0 ≤ i * x.cols := Int.mul_nonneg h0 hcols
  have hstep : (i + 1) * x.cols = i * x.cols + x.cols := by rw [Int.add_mul, Int.one_mul]
  have hhigh : (i + 1) * x.cols ≤ x.data.size := by
    rw [hcount]
    exact Int.mul_le_mul_of_nonneg_right (by omega) hcols
  have hwordLow : word (i * x.cols) = i * x.cols := word_eq (by omega) (by omega)
  have hwordHigh : word ((i + 1) * x.cols) = (i + 1) * x.cols := word_eq (by omega) (by omega)
  refine ⟨(x.data.extract (i * x.cols).toNat ((i + 1) * x.cols).toNat).toList, ?_, ?_⟩
  · rw [row?]
    simp only [hwordLow, hwordHigh]
    exact if_pos ⟨hlow, by omega, hhigh⟩
  · rw [Array.length_toList, Array.size_extract]
    omega

/-- A tensor that is read from bytes is well-formed exactly where none of its dimensions is negative and their product takes at
most 64 bits; whether it is or not, its labels are as many as that product says modulo 2 ^ 64. Of a well-formed one, read from
bytes whose number is counted in 64 bits with a sign, every row is in range and has its labels. -/
theorem wellFormed_of_decode {bs : Bytes} {x : Tensor} (h : decode bs = .ok x) :
    (x.WellFormed ↔ 0 ≤ x.rows ∧ 0 ≤ x.cols ∧ x.rows * x.cols < 2 ^ 64) ∧
      x.data.size = toWord x.rows * toWord x.cols % 2 ^ 64 ∧
      (x.WellFormed → bs.length < 2 ^ 63 →
        ∀ i, 0 ≤ i → i < x.rows → ∃ r, x.row? i = some r ∧ (r.length : Int) = x.cols) := by
  obtain ⟨hrows, hcols, hsize, hlen⟩ := decode_ok h
  refine ⟨⟨fun hw => ?_, fun hshape => ?_⟩, hsize, fun hw hbytes i h0 hi => row?_of_wellFormed hw (by omega) h0 hi⟩
  · obtain ⟨h0r, h0c, hcount⟩ := hw
    have hlt : x.data.size < 2 ^ 64 := by
      rw [hsize]
      exact Nat.mod_lt _ (by decide)
    exact ⟨h0r, h0c, by omega⟩
  · obtain ⟨h0r, h0c, hprod⟩ := hshape
    have hwords := words_mul h0r h0c hrows hcols
    refine ⟨h0r, h0c, ?_⟩
    rw [hsize, Nat.mod_eq_of_lt (by omega), hwords]

namespace Sample

/-- Two rows of one label, the second packed with the first, and a field of another message in between. -/
def twoRows : Bytes :=
  numberField rowsField 2 ++ numberField colsField 1 ++ numberField 7 300 ++ Wire.tag dataField .bytes ++
    Wire.lengthPrefixed (labelBytes Label.one ++ labelBytes Label.zero)

/-- Dimensions of 33 bits each, without labels. -/
def wrapping : Bytes :=
  numberField rowsField (2 ^ 32) ++ numberField colsField (2 ^ 32)

/-- A number of rows of 64 bits, without columns. -/
def beyondSign : Bytes :=
  numberField rowsField (2 ^ 63) ++ numberField colsField 0

end Sample

theorem wellFormed_of_decode_sample : ∃ x, decode Sample.twoRows = .ok x ∧
    (x.WellFormed ↔ 0 ≤ x.rows ∧ 0 ≤ x.cols ∧ x.rows * x.cols < 2 ^ 64) ∧
      x.data.size = toWord x.rows * toWord x.cols % 2 ^ 64 ∧
      (x.WellFormed → Sample.twoRows.length < 2 ^ 63 →
        ∀ i, 0 ≤ i → i < x.rows → ∃ r, x.row? i = some r ∧ (r.length : Int) = x.cols) := by
  have hread : decode Sample.twoRows = .ok ⟨2, 1, .float64, #[Label.one, Label.zero]⟩ :=
    ok_of_toOption (by decide +kernel)
  exact ⟨_, hread, wellFormed_of_decode hread⟩

/-- From dimensions of 33 bits without labels a tensor is read that claims 2 ^ 64 labels, and no row of which is in range; from
rows that do not fit with a sign, one with a negative number of rows. -/
theorem decode_wraps :
    (∃ x, decode Sample.wrapping = .ok x ∧ x.rows = 2 ^ 32 ∧ x.cols = 2 ^ 32 ∧ x.data.size = 0 ∧ ¬ x.WellFormed ∧
      x.row? 0 = none) ∧
    ∃ x, decode Sample.beyondSign = .ok x ∧ x.rows = -2 ^ 63 ∧ ¬ x.WellFormed := by
  have hwrap : decode Sample.wrapping = .ok ⟨2 ^ 32, 2 ^ 32, .float64, #[]⟩ := ok_of_toOption (by decide +kernel)
  have hsign : decode Sample.beyondSign = .ok ⟨-2 ^ 63, 0, .float64, #[]⟩ := ok_of_toOption (by decide +kernel)
  refine ⟨⟨_, hwrap, rfl, rfl, rfl, fun hw => ?_, by decide +kernel⟩, ⟨_, hsign, rfl, fun hw => ?_⟩⟩
  · exact absurd hw.2.2 (by decide)
  · exact absurd hw.1 (by decide)

end Tensor
end ModalGraph
