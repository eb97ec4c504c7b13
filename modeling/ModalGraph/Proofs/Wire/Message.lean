import ModalGraph.Proofs.Wire.Field

/-!
# Sequences of fields

A message is a sequence of fields in any order (`IsFields`), with groups in it that are sequences of fields themselves. Each reader
takes exactly the bytes of a field off the front, whatever comes after them (`IsScalar.skip`, `IsFields.skip`). And it does not look at
more bytes than it takes (`Steady`): on more bytes it gives the same, with more bytes left. So no field can be read from a part of
its bytes.
-/

namespace ModalGraph
namespace Wire

/-! ## Fields as they are written -/

/-- The value of a field. It does not matter what is in a group. -/
inductive Value where
  | varint (n : Nat)
  | fixed64 (n : Nat)
  | bytes (payload : Bytes)
  | group
  | fixed32 (n : Nat)
deriving Repr

/-- How a value is written. -/
@[simp]
def Value.type : Value → WireType
  | .varint _ => .varint
  | .fixed64 _ => .fixed64
  | .bytes _ => .bytes
  | .group => .startGroup
  | .fixed32 _ => .fixed32

/-- A field of a message. -/
structure Field where
  number : Nat
  value : Value
deriving Repr

/-- The bytes of a value that is not a group. -/
inductive IsScalar : Value → Bytes → Prop
  | varint {n : Nat} {bs : Bytes} (h : IsVarint n bs) : IsScalar (.varint n) bs
  | fixed64 {n : Nat} (lt : n < 2 ^ 64) : IsScalar (.fixed64 n) (littleEndian 8 n)
  | bytes {payload bs : Bytes} (h : IsVarint payload.length bs) : IsScalar (.bytes payload) (bs ++ payload)
  | fixed32 {n : Nat} (lt : n < 2 ^ 32) : IsScalar (.fixed32 n) (littleEndian 4 n)

/-- The bytes of a sequence of fields, with at most `depth` groups in each other. A group stands between two tags of its number. -/
inductive IsFields : Nat → List Field → Bytes → Prop
  | nil {depth : Nat} : IsFields depth [] []
  | scalar {depth number : Nat} {value : Value} {fields : List Field} {t v bs : Bytes} (start : IsTag number value.type t)
    (scalar : IsScalar value v) (rest : IsFields depth fields bs) : IsFields depth (⟨number, value⟩ :: fields) (t ++ v ++ bs)
  | group {depth number : Nat} {inner fields : List Field} {t v t' bs : Bytes} (start : IsTag number .startGroup t)
    (content : IsFields depth inner v) (stop : IsTag number .endGroup t') (rest : IsFields (depth + 1) fields bs) :
    IsFields (depth + 1) (⟨number, .group⟩ :: fields) (t ++ (v ++ t') ++ bs)

/-! ## What is taken off the front -/

theorem IsScalar.skip {value : Value} {v : Bytes} (h : IsScalar value v) (number : Nat) (rest : Bytes) :
    skipValue number value.type (v ++ rest) = .ok rest := by
  cases h with
  | varint h => exact congrArg (Prod.snd <$> ·) (h.read rest)
  | fixed64 _ => exact congrArg (Prod.snd <$> ·) (take_append (littleEndian_length 8 _) rest)
  | @bytes payload bs h =>
    show Prod.snd <$> (readVarint (bs ++ payload ++ rest) >>= fun p => take p.1 p.2) = _
    rw [List.append_assoc, h.read, ok_bind, take_append rfl]
    rfl
  | fixed32 _ => exact congrArg (Prod.snd <$> ·) (take_append (littleEndian_length 4 _) rest)

theorem IsScalar.not_group {value : Value} {v : Bytes} (h : IsScalar value v) : value.type ≠ .startGroup := by
  cases h <;> simp

/-- The fields of a group are skipped together with its end. -/
theorem IsFields.skip {depth : Nat} {fields : List Field} {bs : Bytes} (h : IsFields depth fields bs) {number : Nat} {stop : Bytes}
    (hstop : IsTag number .endGroup stop) (rest : Bytes) {fuel : Nat} (hfuel : (bs ++ stop).length ≤ fuel) :
    skipGroup fuel depth number (bs ++ (stop ++ rest)) = .ok rest := by
  induction h generalizing number stop rest fuel with
  | nil =>
    have hpos := hstop.length_pos
    obtain ⟨fuel, rfl⟩ : ∃ k, fuel = k + 1 := ⟨fuel - 1, by simp only [List.nil_append] at hfuel; omega⟩
    exact skipGroup_end (hstop.read rest)
  | @scalar depth inner value fields t v bs start scalar _ ih =>
    have hpos := start.length_pos
    simp only [List.length_append] at hfuel
    obtain ⟨fuel, rfl⟩ : ∃ k, fuel = k + 1 := ⟨fuel - 1, by omega⟩
    rw [List.append_assoc, List.append_assoc, skipGroup_value (start.read _) scalar.not_group (scalar.skip inner _)]
    exact ih hstop rest (by rw [List.length_append]; omega)
  | @group depth inner _ fields t v t' bs start _ stopInner _ ihContent ihRest =>
    have hpos := start.length_pos
    simp only [List.length_append] at hfuel
    obtain ⟨fuel, rfl⟩ : ∃ k, fuel = k + 1 := ⟨fuel - 1, by omega⟩
    have hinner : skipGroup fuel depth inner (v ++ (t' ++ (bs ++ (stop ++ rest)))) = .ok (bs ++ (stop ++ rest)) :=
      ihContent stopInner _ (by rw [List.length_append]; omega)
    rw [List.append_assoc, List.append_assoc, List.append_assoc,
      skipGroup_group (start.read _) (Nat.succ_ne_zero depth) hinner]
    exact ihRest hstop rest (by rw [List.length_append]; omega)

/-! ## Readers that look no further -/

/-- A reader looks no further than what it takes. -/
def Steady {α : Type} (read : Bytes → Except WireFault (α × Bytes)) : Prop :=
  ∀ ⦃bs rest : Bytes⦄ ⦃a : α⦄, read bs = .ok (a, rest) → ∀ more, read (bs ++ more) = .ok (a, rest ++ more)

section

variable {α β : Type}

theorem steady_return (a : α) : Steady fun bs => .ok (a, bs) := by
  intro bs rest a h more
  cases h
  rfl

/-- Two readers in turn. -/
theorem Steady.bind {read : Bytes → Except WireFault (α × Bytes)} {next : α → Bytes → Except WireFault (β × Bytes)}
    (h : Steady read) (hnext : ∀ a, Steady (next a)) : Steady fun bs => read bs >>= fun p => next p.1 p.2 := by
  intro bs rest b hread more
  obtain ⟨⟨a, mid⟩, ha, hb⟩ := bind_ok hread
  dsimp only
  rw [h ha more, ok_bind]
  exact hnext a hb more

end

theorem steady_readVarintFrom (place : Nat) : Steady (readVarintFrom place) := by
  intro bs rest n h more
  induction bs generalizing place rest n with
  | nil => cases h
  | cons b bs ih =>
    rw [readVarintFrom] at h
    rw [List.cons_append, readVarintFrom]
    split at h
    · rename_i hplace
      rw [if_pos hplace]
      split at h
      · rename_i hlow
        cases h
        rw [if_pos hlow]
      · cases h
    · rename_i hplace
      rw [if_neg hplace]
      split at h
      · rename_i hlow
        cases h
        rw [if_pos hlow]
      · rename_i hhigh
        obtain ⟨⟨high, after⟩, hread, heq⟩ := bind_ok h
        cases heq
        rw [if_neg hhigh, ih (place + 1) hread]
        rfl

theorem steady_readVarint : Steady readVarint :=
  steady_readVarintFrom 0

theorem steady_take (count : Nat) : Steady (take count) := by
  intro bs rest v h more
  rw [take] at h
  split at h
  · cases h
  · rename_i hlen
    cases h
    have hmore : ¬(bs ++ more).length < count := by
      rw [List.length_append]
      omega
    rw [take, if_neg hmore, List.take_append_of_le_length (by omega), List.drop_append_of_le_length (by omega)]

theorem steady_readFixed64 : Steady readFixed64 :=
  (steady_take 8).bind fun v => steady_return (ofLittleEndian v)

theorem steady_readBytes : Steady readBytes :=
  steady_readVarint.bind steady_take

theorem steady_readTag : Steady readTag := by
  intro bs rest field h more
  obtain ⟨⟨v, mid⟩, hread, hfield⟩ := bind_ok h
  rw [readTag, steady_readVarint hread more, ok_bind]
  dsimp only at hfield ⊢
  split at hfield
  · cases hfield
  · rename_i hvalid
    rw [if_neg hvalid]
    cases hfield
    rfl

theorem skipScalar_append {number : Nat} {type : WireType} {bs rest : Bytes} (htype : type ≠ .startGroup)
    (h : skipValue number type bs = .ok rest) (more : Bytes) : skipValue number type (bs ++ more) = .ok (rest ++ more) := by
  cases type with
  | varint =>
    obtain ⟨⟨n, after⟩, hvalue, rfl⟩ := map_ok h
    exact congrArg (Prod.snd <$> ·) (steady_readVarint hvalue more)
  | fixed64 =>
    obtain ⟨⟨v, after⟩, hvalue, rfl⟩ := map_ok h
    exact congrArg (Prod.snd <$> ·) (steady_take 8 hvalue more)
  | bytes =>
    obtain ⟨⟨v, after⟩, hvalue, rfl⟩ := map_ok h
    exact congrArg (Prod.snd <$> ·) (steady_readBytes hvalue more)
  | fixed32 =>
    obtain ⟨⟨v, after⟩, hvalue, rfl⟩ := map_ok h
    exact congrArg (Prod.snd <$> ·) (steady_take 4 hvalue more)
  | startGroup => exact absurd rfl htype
  | endGroup => cases h
  | reserved => cases h

/-- A group is skipped up to its end and no further. -/
theorem skipGroup_append {fuel fuel' depth number : Nat} {bs rest : Bytes} (h : skipGroup fuel depth number bs = .ok rest)
    (hfuel : fuel ≤ fuel') (more : Bytes) : skipGroup fuel' depth number (bs ++ more) = .ok (rest ++ more) := by
  induction fuel generalizing fuel' depth number bs rest with
  | zero => cases h
  | succ fuel ih =>
    obtain ⟨fuel', rfl⟩ : ∃ k, fuel' = k + 1 := ⟨fuel' - 1, by omega⟩
    have hle : fuel ≤ fuel' := by omega
    obtain ⟨inner, type, mid, htag, hcase⟩ := skipGroup_cases h
    have htag := steady_readTag htag more
    rcases hcase with ⟨rfl, rfl, rfl⟩ | ⟨htype, after, hvalue, hgo⟩ | ⟨rfl, hdepth, after, hinner, hgo⟩
    · exact skipGroup_end htag
    · rw [skipGroup_value htag htype (skipScalar_append htype hvalue more)]
      exact ih hgo hle
    · rw [skipGroup_group htag hdepth (ih hinner hle)]
      exact ih hgo hle

theorem skipValue_append {number : Nat} {type : WireType} {bs rest : Bytes} (h : skipValue number type bs = .ok rest)
    (more : Bytes) : skipValue number type (bs ++ more) = .ok (rest ++ more) := by
  by_cases htype : type = .startGroup
  · subst htype
    exact skipGroup_append h (by rw [List.length_append]; omega) more
  · exact skipScalar_append htype h more

end Wire
end ModalGraph
