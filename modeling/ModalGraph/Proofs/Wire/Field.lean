import Mathlib.Tactic.Ring
import ModalGraph.Wire.Field
import ModalGraph.Proofs.Step

/-!
# What a reader takes off written bytes

Each reader undoes its writer on the front of a longer run of bytes: it gives back what was written, and the bytes after it as
they are. A number may be written in more bytes than it needs (`IsVarint`), and the reader takes it all the same. It has ten bytes at
most, the tenth of which holds one bit; so the number that is still to be read at byte `place` has to be less than
`2 ^ (64 - 7 * place)`.
-/

namespace ModalGraph
namespace Wire

/-- A byte that is made from a small number is that number. -/
theorem toNat_toUInt8 {n : Nat} (h : n < 256) : n.toUInt8.toNat = n := by
  simp [Nat.mod_eq_of_lt h]

/-! ## Variable length integers -/

/-- A number in groups of seven bits, least significant first, in bytes of which all but the last have their high bit set. There may be
more groups than the number needs. -/
inductive Groups : Nat → Bytes → Prop
  | last {b : UInt8} (low : b.toNat < 128) : Groups b.toNat [b]
  | more {b : UInt8} {high : Nat} {bs : Bytes} (marked : 128 ≤ b.toNat) (rest : Groups high bs) :
    Groups (b.toNat - 128 + 128 * high) (b :: bs)

/-- A number of 64 bits in ten groups at most. -/
structure IsVarint (n : Nat) (bs : Bytes) : Prop where
  groups : Groups n bs
  length_le : bs.length ≤ 10
  lt : n < 2 ^ 64

theorem Groups.length_pos {n : Nat} {bs : Bytes} (h : Groups n bs) : 0 < bs.length := by
  cases h <;> simp

/-- Reading at byte `place` takes a number that fits into the bits that are left there. -/
theorem Groups.read {n : Nat} {bs : Bytes} (h : Groups n bs) (rest : Bytes) (place : Nat) (hlen : place + bs.length ≤ 10)
    (hlt : n * 2 ^ (7 * place) < 2 ^ 64) : readVarintFrom place (bs ++ rest) = .ok (n, rest) := by
  induction h generalizing place with
  | @last b low =>
    rw [List.length_singleton] at hlen
    rw [List.singleton_append, readVarintFrom]
    by_cases hplace : 9 ≤ place
    · -- The tenth byte: one bit is left.
      obtain rfl : place = 9 := by omega
      rw [if_pos hplace, if_pos (by omega)]
    · rw [if_neg hplace, if_pos low]
  | @more b high bs marked hrest ih =>
    have hpos := hrest.length_pos
    have hpow : 2 ^ (7 * (place + 1)) = 128 * 2 ^ (7 * place) := by ring
    have hhigh : high * 2 ^ (7 * (place + 1)) < 2 ^ 64 :=
      calc high * 2 ^ (7 * (place + 1)) = 128 * high * 2 ^ (7 * place) := by rw [hpow]; ring
        _ ≤ (b.toNat - 128 + 128 * high) * 2 ^ (7 * place) := Nat.mul_le_mul_right _ (Nat.le_add_left _ _)
        _ < 2 ^ 64 := hlt
    rw [List.length_cons] at hlen
    rw [List.cons_append, readVarintFrom, if_neg (by omega), if_neg (by omega), ih (place + 1) (by omega) hhigh]
    rfl

theorem IsVarint.read {n : Nat} {bs : Bytes} (h : IsVarint n bs) (rest : Bytes) : readVarint (bs ++ rest) = .ok (n, rest) :=
  h.groups.read rest 0 (by have := h.length_le; omega) (by have := h.lt; omega)

theorem groups_varint (n : Nat) : Groups n (varint n) := by
  induction n using Nat.strongRecOn with
  | ind n ih =>
    rw [varint]
    split
    · next hlow =>
      have hbyte : n.toUInt8.toNat = n := toNat_toUInt8 (by omega)
      have hlast : Groups n.toUInt8.toNat [n.toUInt8] := .last (by omega)
      rwa [hbyte] at hlast
    · next hhigh =>
      have hbyte : (n % 128 + 128).toUInt8.toNat = n % 128 + 128 := toNat_toUInt8 (by omega)
      have hmore := Groups.more (b := (n % 128 + 128).toUInt8) (by omega) (ih (n / 128) (by omega))
      rwa [hbyte, Nat.add_sub_cancel, Nat.mod_add_div] at hmore

theorem varint_length_le {n k : Nat} (h : n < 128 ^ (k + 1)) : (varint n).length ≤ k + 1 := by
  induction k generalizing n with
  | zero => rw [varint, if_pos (by omega), List.length_singleton]
  | succ k ih =>
    rw [varint]
    split
    · simp
    · rw [Nat.pow_succ] at h
      have := ih (n := n / 128) (by omega)
      rw [List.length_cons]
      omega

/-- A number is written in as many groups as it needs. -/
theorem isVarint_varint {n : Nat} (h : n < 2 ^ 64) : IsVarint n (varint n) :=
  ⟨groups_varint n, varint_length_le (k := 9) (by omega), h⟩

/-- A number of 64 bits is read back. -/
theorem readVarint_varint {n : Nat} (h : n < 2 ^ 64) (rest : Bytes) : readVarint (varint n ++ rest) = .ok (n, rest) :=
  (isVarint_varint h).read rest

/-! ## Numbers of a fixed length -/

@[simp] theorem littleEndian_length (count n : Nat) : (littleEndian count n).length = count := by
  induction count generalizing n with
  | zero => rfl
  | succ count ih => simp [littleEndian, ih]

/-- The bytes of a number keep as much of it as they have room for. -/
theorem ofLittleEndian_littleEndian (count n : Nat) : ofLittleEndian (littleEndian count n) = n % 256 ^ count := by
  induction count generalizing n with
  | zero => simp [littleEndian, ofLittleEndian, Nat.mod_one]
  | succ count ih =>
    have hbyte : (n % 256).toUInt8.toNat = n % 256 := toNat_toUInt8 (by omega)
    rw [littleEndian, ofLittleEndian, hbyte, ih, Nat.pow_succ', Nat.mod_mul]

/-- As many bytes as were put in front are taken off. -/
theorem take_append {count : Nat} {v : Bytes} (h : v.length = count) (rest : Bytes) : take count (v ++ rest) = .ok (v, rest) := by
  subst h
  have hlong : ¬ (v ++ rest).length < v.length := by simp
  rw [take, if_neg hlong, List.take_left, List.drop_left]

/-- A number of 64 bits is read back from its eight bytes. -/
theorem readFixed64_littleEndian {n : Nat} (h : n < 2 ^ 64) (rest : Bytes) :
    readFixed64 (littleEndian 8 n ++ rest) = .ok (n, rest) := by
  have hn : ofLittleEndian (littleEndian 8 n) = n := by
    rw [ofLittleEndian_littleEndian]
    exact Nat.mod_eq_of_lt h
  simp only [readFixed64, take_append (littleEndian_length 8 n), ok_bind, hn]
  rfl

/-- Bytes are read back from behind their length. -/
theorem readBytes_lengthPrefixed {bs : Bytes} (h : bs.length < 2 ^ 64) (rest : Bytes) :
    readBytes (lengthPrefixed bs ++ rest) = .ok (bs, rest) := by
  rw [readBytes, lengthPrefixed, List.append_assoc, readVarint_varint h]
  exact take_append rfl rest

/-! ## Tags -/

theorem ofCode_code {type : WireType} (h : type ≠ .reserved) : WireType.ofCode type.code = type := by
  cases type with
  | reserved => exact absurd rfl h
  | _ => rfl

theorem code_lt (type : WireType) : type.code < 8 := by
  cases type <;> decide

/-- Some bytes are the tag of a field: its number, which is not zero, and its wire type in one number. -/
structure IsTag (number : Nat) (type : WireType) (bs : Bytes) : Prop where
  varint : IsVarint (number * 8 + type.code) bs
  pos : 0 < number
  le : number ≤ maxFieldNumber
  known : type ≠ .reserved

theorem IsTag.read {number : Nat} {type : WireType} {bs : Bytes} (h : IsTag number type bs) (rest : Bytes) :
    readTag (bs ++ rest) = .ok ((number, type), rest) := by
  obtain ⟨hvarint, hpos, hle, hknown⟩ := h
  have hcode := code_lt type
  have hnumber : (number * 8 + type.code) / 8 = number := by omega
  have hmod : (number * 8 + type.code) % 8 = type.code := by omega
  have hvalid : ¬ (number = 0 ∨ maxFieldNumber < number) := by omega
  rw [readTag, hvarint.read, ok_bind]
  simp only [hnumber, hmod, if_neg hvalid, ofCode_code hknown]
  rfl

/-- A tag takes at least one byte. -/
theorem IsTag.length_pos {number : Nat} {type : WireType} {bs : Bytes} (h : IsTag number type bs) : 0 < bs.length :=
  h.varint.groups.length_pos

theorem isTag_tag {number : Nat} {type : WireType} (hpos : 0 < number) (hle : number ≤ maxFieldNumber) (hknown : type ≠ .reserved) :
    IsTag number type (tag number type) := by
  have hcode := code_lt type
  have hmax : maxFieldNumber = 2 ^ 31 - 1 := rfl
  exact ⟨isVarint_varint (by omega), hpos, hle, hknown⟩

/-! ## Groups -/

/-- What the reader does in a group that it skips: it comes to its end, or skips a field that is no group, or a group in it. -/
theorem skipGroup_cases {fuel depth number : Nat} {bs rest : Bytes} (h : skipGroup (fuel + 1) depth number bs = .ok rest) :
    ∃ inner type mid, readTag bs = .ok ((inner, type), mid) ∧
      ((type = .endGroup ∧ inner = number ∧ mid = rest) ∨
        (type ≠ .startGroup ∧ ∃ after, skipValue inner type mid = .ok after ∧ skipGroup fuel depth number after = .ok rest) ∨
        (type = .startGroup ∧ depth ≠ 0 ∧
          ∃ after, skipGroup fuel (depth - 1) inner mid = .ok after ∧ skipGroup fuel depth number after = .ok rest)) := by
  rw [skipGroup] at h
  obtain ⟨⟨⟨inner, type⟩, mid⟩, htag, h⟩ := bind_ok h
  refine ⟨inner, type, mid, htag, ?_⟩
  dsimp only at h
  cases type with
  | endGroup =>
    dsimp only at h
    split at h
    · rename_i hend
      exact .inl ⟨rfl, hend, Except.ok.inj h⟩
    · cases h
  | varint =>
    obtain ⟨⟨n, after⟩, hvalue, hgo⟩ := bind_ok h
    exact .inr (.inl ⟨nofun, after, congrArg (Prod.snd <$> ·) hvalue, hgo⟩)
  | fixed64 =>
    obtain ⟨⟨v, after⟩, hvalue, hgo⟩ := bind_ok h
    exact .inr (.inl ⟨nofun, after, congrArg (Prod.snd <$> ·) hvalue, hgo⟩)
  | bytes =>
    obtain ⟨⟨v, after⟩, hvalue, hgo⟩ := bind_ok h
    exact .inr (.inl ⟨nofun, after, congrArg (Prod.snd <$> ·) hvalue, hgo⟩)
  | fixed32 =>
    obtain ⟨⟨v, after⟩, hvalue, hgo⟩ := bind_ok h
    exact .inr (.inl ⟨nofun, after, congrArg (Prod.snd <$> ·) hvalue, hgo⟩)
  | startGroup =>
    dsimp only at h
    split at h
    · cases h
    · rename_i hdepth
      exact .inr (.inr ⟨rfl, hdepth, bind_ok h⟩)
  | reserved => cases h

theorem skipGroup_end {fuel depth number : Nat} {bs rest : Bytes} (htag : readTag bs = .ok ((number, .endGroup), rest)) :
    skipGroup (fuel + 1) depth number bs = .ok rest := by
  rw [skipGroup, htag, ok_bind]
  exact if_pos rfl

/-- A field that is no group is skipped in a group as it is outside. -/
theorem skipGroup_value {fuel depth number inner : Nat} {type : WireType} {bs mid after : Bytes}
    (htag : readTag bs = .ok ((inner, type), mid)) (htype : type ≠ .startGroup) (hvalue : skipValue inner type mid = .ok after) :
    skipGroup (fuel + 1) depth number bs = skipGroup fuel depth number after := by
  rw [skipGroup, htag, ok_bind]
  cases type with
  | startGroup => exact absurd rfl htype
  | endGroup => cases hvalue
  | reserved => cases hvalue
  | _ =>
    obtain ⟨⟨a, after⟩, hread, rfl⟩ := map_ok hvalue
    dsimp only
    rw [hread, ok_bind]

theorem skipGroup_group {fuel depth number inner : Nat} {bs mid after : Bytes} (htag : readTag bs = .ok ((inner, .startGroup), mid))
    (hdepth : depth ≠ 0) (hinner : skipGroup fuel (depth - 1) inner mid = .ok after) :
    skipGroup (fuel + 1) depth number bs = skipGroup fuel depth number after := by
  rw [skipGroup, htag, ok_bind]
  dsimp only
  rw [if_neg hdepth, hinner, ok_bind]

end Wire
end ModalGraph
