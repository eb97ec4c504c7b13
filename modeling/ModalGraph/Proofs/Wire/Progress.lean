import ModalGraph.Proofs.Wire.Field

/-!
# What is left behind a field

Whatever bytes a reader gets: where it succeeds, it has taken as many bytes off the front as its value has, and at least one for
a number of variable length. Such a number has 64 bits at most. A field that is skipped never adds bytes.
-/

namespace ModalGraph
namespace Wire

/-- A number that is read from byte `place` on fits into the bits that are left there. -/
theorem readVarintFrom_ok {place n : Nat} {bs rest : Bytes} (hplace : place ≤ 9)
    (h : readVarintFrom place bs = .ok (n, rest)) : n < 2 ^ (64 - 7 * place) ∧ rest.length < bs.length := by
  induction bs generalizing place n rest with
  | nil => cases h
  | cons b bs ih =>
    rw [readVarintFrom] at h
    split at h
    · next hlast =>
      obtain rfl : place = 9 := by omega
      split at h
      · next hb =>
        cases h
        exact ⟨hb, by simp⟩
      · cases h
    · next hmore =>
      have hpow : 2 ^ (64 - 7 * place) = 128 * 2 ^ (64 - 7 * (place + 1)) := by
        rw [show 64 - 7 * place = 7 + (64 - 7 * (place + 1)) by omega, Nat.pow_add]
      split at h
      · next hb =>
        cases h
        have hpos : 0 < 2 ^ (64 - 7 * (place + 1)) := Nat.two_pow_pos _
        exact ⟨by omega, by simp⟩
      · obtain ⟨⟨high, rest'⟩, hhigh, heq⟩ := bind_ok h
        cases heq
        obtain ⟨hlt, hlen⟩ := ih (by omega) hhigh
        have hb := b.toNat_lt
        exact ⟨by omega, by simp only [List.length_cons]; omega⟩

/-- A number of variable length has 64 bits at most and takes a byte at least. -/
theorem readVarint_ok {n : Nat} {bs rest : Bytes} (h : readVarint bs = .ok (n, rest)) :
    n < 2 ^ 64 ∧ rest.length < bs.length :=
  readVarintFrom_ok (Nat.zero_le 9) h

theorem take_ok {count : Nat} {bs v rest : Bytes} (h : take count bs = .ok (v, rest)) :
    v.length = count ∧ v.length + rest.length = bs.length := by
  rw [take] at h
  split at h
  · cases h
  · next hlong =>
    cases h
    rw [List.length_take, List.length_drop]
    omega

theorem readFixed64_ok {n : Nat} {bs rest : Bytes} (h : readFixed64 bs = .ok (n, rest)) : 8 + rest.length = bs.length := by
  obtain ⟨⟨v, rest'⟩, htake, heq⟩ := bind_ok h
  cases heq
  obtain ⟨hv, hlen⟩ := take_ok htake
  rw [← hlen, hv]

theorem readBytes_ok {v bs rest : Bytes} (h : readBytes bs = .ok (v, rest)) : v.length + rest.length < bs.length := by
  obtain ⟨⟨n, mid⟩, hlen, htake⟩ := bind_ok h
  have hmid := (readVarint_ok hlen).2
  have hrest := (take_ok htake).2
  omega

theorem readTag_ok {field : Nat × WireType} {bs rest : Bytes} (h : readTag bs = .ok (field, rest)) :
    rest.length < bs.length := by
  obtain ⟨⟨v, mid⟩, hread, hrest⟩ := bind_ok h
  have hmid := (readVarint_ok hread).2
  dsimp only at hrest
  split at hrest
  · cases hrest
  · cases hrest
    exact hmid

theorem skipScalar_ok {number : Nat} {type : WireType} {bs rest : Bytes} (htype : type ≠ .startGroup)
    (h : skipValue number type bs = .ok rest) : rest.length ≤ bs.length := by
  cases type with
  | varint =>
    obtain ⟨⟨n, after⟩, hvalue, rfl⟩ := map_ok h
    exact Nat.le_of_lt (readVarint_ok hvalue).2
  | fixed64 =>
    obtain ⟨⟨v, after⟩, hvalue, rfl⟩ := map_ok h
    have hafter := (take_ok hvalue).2
    dsimp only
    omega
  | bytes =>
    obtain ⟨⟨v, after⟩, hvalue, rfl⟩ := map_ok h
    have hafter := readBytes_ok hvalue
    dsimp only
    omega
  | fixed32 =>
    obtain ⟨⟨v, after⟩, hvalue, rfl⟩ := map_ok h
    have hafter := (take_ok hvalue).2
    dsimp only
    omega
  | startGroup => exact absurd rfl htype
  | endGroup => cases h
  | reserved => cases h

/-- A group that is skipped never adds bytes: each of its fields takes some. -/
theorem skipGroup_ok {fuel depth number : Nat} {bs rest : Bytes} (h : skipGroup fuel depth number bs = .ok rest) :
    rest.length ≤ bs.length := by
  induction fuel generalizing depth number bs rest with
  | zero => cases h
  | succ fuel ih =>
    obtain ⟨inner, type, mid, htag, hcase⟩ := skipGroup_cases h
    have hmid := readTag_ok htag
    rcases hcase with ⟨-, -, rfl⟩ | ⟨htype, after, hvalue, hgo⟩ | ⟨-, -, after, hinner, hgo⟩
    · omega
    · have hafter := skipScalar_ok htype hvalue
      have hrest := ih hgo
      omega
    · have hafter := ih hinner
      have hrest := ih hgo
      omega

theorem skipValue_ok {number : Nat} {type : WireType} {bs rest : Bytes} (h : skipValue number type bs = .ok rest) :
    rest.length ≤ bs.length := by
  by_cases htype : type = .startGroup
  · subst htype
    exact skipGroup_ok h
  · exact skipScalar_ok htype h

end Wire
end ModalGraph
