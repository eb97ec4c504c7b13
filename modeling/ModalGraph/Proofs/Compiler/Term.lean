import Mathlib.Data.List.Basic
import ModalGraph.Compiler.Basic
import ModalGraph.Proofs.Formula.Name

/-!
# What a key spells

A term is a computation written out: the input, an operator on a term, several terms side by side, a diamond on a term, a
variable given by the depth of its binder and its base, or a fixpoint. `Term.key` is the key of the node that a compiler makes for
a term. Keys are plain text with operator names and their arguments inside; they can be read back in one way only
(`Term.key_injective`), because a name ends at the first byte that is neither an identifier byte nor part of its argument, and a
term is followed by a comma or by a closing parenthesis or brace.
-/

namespace ModalGraph

open Formula Compiler

/-- A computation, written out. -/
inductive Term where
  | input
  | psi (name : Bytes) (arg : Argument) (operand : Term)
  | concat (parts : List Term)
  | diamond (direction : Direction) (phi : Option Bytes) (sigma : Bytes) (operand : Term)
  | var (depth : Nat) (base : Bytes)
  | fix (least : Bool) (depth : Nat) (base : Bytes) (body : Term)

namespace Term

mutual

/-- The key of a term. -/
def key : Term → Bytes
  | .input => Store.inputKey
  | .psi name arg t => applied (bracketed name arg) t.key
  | .concat ts => concatKey (keys ts)
  | .diamond direction phi sigma t => applied (Expr.diamondKey direction phi sigma) t.key
  | .var depth base => variableKey depth base
  | .fix least depth base t => fixpointKey least (variableKey depth base) t.key

/-- The keys of several terms. -/
def keys : List Term → List Bytes
  | [] => []
  | t :: ts => t.key :: keys ts

end

theorem keys_eq_map (ts : List Term) : keys ts = ts.map key := by
  induction ts with
  | nil => rfl
  | cons t ts ih => rw [keys, ih, List.map_cons]

mutual

/-- A term whose names are such as formula text can spell. -/
def Clean : Term → Prop
  | .input => True
  | .psi name arg t => CleanName name arg ∧ t.Clean
  | .concat ts => 2 ≤ ts.length ∧ AllClean ts
  | .diamond _ phi sigma t => (∀ p ∈ phi, IsName p) ∧ IsName sigma ∧ t.Clean
  | .var _ base => IsName base
  | .fix _ _ base t => IsName base ∧ t.Clean

/-- Several terms whose names are such as formula text can spell. -/
def AllClean : List Term → Prop
  | [] => True
  | t :: ts => t.Clean ∧ AllClean ts

end

end Term

/-! ## Reading a name -/

namespace TermAux

/-- Two runs of bytes of one kind, each followed by a byte of another kind or by nothing, are equal if the texts are. -/
theorem run_inj {p : UInt8 → Bool} {a b r s : Bytes} (ha : ∀ x ∈ a, p x = true) (hb : ∀ x ∈ b, p x = true)
    (hr : ∀ x ∈ r.head?, p x = false) (hs : ∀ x ∈ s.head?, p x = false) (h : a ++ r = b ++ s) : a = b ∧ r = s := by
  induction a generalizing b with
  | nil =>
    cases b with
    | nil => exact ⟨rfl, h⟩
    | cons y b =>
      have hy : p y = false := hr y (by rw [List.nil_append] at h; simp [h])
      simp [hb y List.mem_cons_self] at hy
  | cons x a ih =>
    cases b with
    | nil =>
      have hx : p x = false := hs x (by rw [List.nil_append] at h; simp [← h])
      simp [ha x List.mem_cons_self] at hx
    | cons y b =>
      rw [List.cons_append, List.cons_append, List.cons.injEq] at h
      obtain ⟨rfl, h⟩ := h
      obtain ⟨rfl, hrs⟩ := ih (fun z hz => ha z (List.mem_cons_of_mem _ hz)) (fun z hz => hb z (List.mem_cons_of_mem _ hz)) h
      exact ⟨rfl, hrs⟩

/-- A text at which a name ends: it goes on with no identifier byte and no bracket. -/
def EndsName (r : Bytes) : Prop :=
  ∀ b ∈ r.head?, isIdentByte b = false ∧ b ≠ Bytes.ascii '['

theorem endsName_cons {b : UInt8} (r : Bytes) (hb : isIdentByte b = false) (hb' : b ≠ Bytes.ascii '[') : EndsName (b :: r) := by
  intro c hc
  cases hc
  exact ⟨hb, hb'⟩

/-- The argument of a name in brackets. -/
theorem bracketed_eq (name : Bytes) (arg : Option Bytes) : bracketed name arg = name ++ argumentText arg := by
  cases arg with
  | none => simp [bracketed, argumentText]
  | some a => rfl

theorem head_argumentText (arg : Option Bytes) {r : Bytes} (hr : arg = none → EndsName r) :
    ∀ x ∈ (argumentText arg ++ r).head?, isIdentByte x = false := by
  cases arg with
  | none => exact fun x hx => (hr rfl x hx).1
  | some a =>
    intro x hx
    cases hx
    decide

/-- Two arguments at the end of a name are equal if the texts are. -/
theorem argumentText_inj {a b : Option Bytes} {r s : Bytes} (ha : ∀ x ∈ a, ∀ c ∈ x, isArgByte c = true)
    (hb : ∀ x ∈ b, ∀ c ∈ x, isArgByte c = true) (hr : EndsName r) (hs : EndsName s)
    (h : argumentText a ++ r = argumentText b ++ s) : a = b ∧ r = s := by
  cases a with
  | none =>
    cases b with
    | none => exact ⟨rfl, h⟩
    | some b =>
      have := (hr (Bytes.ascii '[') (by rw [argumentText, List.nil_append] at h; simp [h, argumentText])).2
      exact absurd rfl this
  | some a =>
    cases b with
    | none =>
      have := (hs (Bytes.ascii '[') (by rw [argumentText, argumentText, List.nil_append] at h; simp [← h])).2
      exact absurd rfl this
    | some b =>
      simp only [argumentText, List.cons_append, List.append_assoc, List.cons.injEq, true_and, List.nil_append] at h
      have hstop : ∀ t : Bytes, ∀ x ∈ (Bytes.ascii ']' :: t).head?, isArgByte x = false := by
        intro t x hx
        cases hx
        decide
      obtain ⟨rfl, hrs⟩ := run_inj (ha a rfl) (hb b rfl) (hstop r) (hstop s) h
      exact ⟨rfl, (List.cons.inj hrs).2⟩

/-- Two names with their arguments are equal if the texts are. -/
theorem cleanName_inj {m n : Bytes} {a b : Option Bytes} {r s : Bytes} (hm : CleanName m a) (hn : CleanName n b)
    (hr : EndsName r) (hs : EndsName s) (h : bracketed m a ++ r = bracketed n b ++ s) : m = n ∧ a = b ∧ r = s := by
  rw [bracketed_eq, bracketed_eq, List.append_assoc, List.append_assoc] at h
  obtain ⟨rfl, harg⟩ := run_inj hm.identBytes hn.identBytes (head_argumentText a fun _ => hr) (head_argumentText b fun _ => hs) h
  obtain ⟨rfl, hrs⟩ := argumentText_inj hm.argBytes hn.argBytes hr hs harg
  exact ⟨rfl, rfl, hrs⟩

theorem isName_inj {m n r s : Bytes} (hm : IsName m) (hn : IsName n) (hr : EndsName r) (hs : EndsName s)
    (h : m ++ r = n ++ s) : m = n ∧ r = s := by
  obtain ⟨m, a, hm, rfl⟩ := hm
  obtain ⟨n, b, hn, rfl⟩ := hn
  obtain ⟨rfl, rfl, hrs⟩ := cleanName_inj hm hn hr hs h
  exact ⟨rfl, hrs⟩

/-! ## Reading a number -/

/-- The bytes of a number in decimal digits. -/
def digitBytes (n : Nat) : Bytes :=
  (Nat.toDigits 10 n).map fun c => UInt8.ofNat c.toNat

theorem ofString_append (s t : String) : Bytes.ofString (s ++ t) = Bytes.ofString s ++ Bytes.ofString t := by
  simp [Bytes.ofString]

/-- Decimal digits are bytes from 48 to 57. -/
theorem toNat_digit {n : Nat} {c : Char} (h : c ∈ Nat.toDigits 10 n) : 48 ≤ c.toNat ∧ c.toNat ≤ 57 :=
  Char.isDigit_iff_toNat.mp (Nat.isDigit_of_mem_toDigits (by decide) (by decide) h)

theorem ofString_repr (n : Nat) : Bytes.ofString (Nat.repr n) = digitBytes n := by
  have h : ∀ cs : List Char, (∀ c ∈ cs, c.toNat ≤ 57) →
      cs.flatMap String.utf8EncodeChar = cs.map fun c => UInt8.ofNat c.toNat := by
    intro cs
    induction cs with
    | nil => exact fun _ => rfl
    | cons c cs ih =>
      intro hc
      have h1 : c.val.toNat ≤ 0x7f := Nat.le_trans (hc c List.mem_cons_self) (by decide)
      rw [List.flatMap_cons, ih fun d hd => hc d (List.mem_cons_of_mem _ hd), String.utf8EncodeChar, if_pos h1]
      rfl
  rw [Bytes.ofString, Nat.toList_repr, digitBytes]
  exact h _ fun c hc => (toNat_digit hc).2

/-- A digit is an identifier byte, and a colon is none. -/
theorem digitBytes_ident (n : Nat) : ∀ b ∈ digitBytes n, isIdentByte b = true := by
  intro b hb
  obtain ⟨c, hc, rfl⟩ := List.mem_map.mp hb
  obtain ⟨h1, h2⟩ := toNat_digit hc
  have h3 : (UInt8.ofNat c.toNat).toNat = c.toNat := by
    rw [UInt8.toNat_ofNat']
    omega
  have h4 : Bytes.ascii '0' ≤ UInt8.ofNat c.toNat := UInt8.le_iff_toNat_le.mpr (by rw [h3]; exact h1)
  have h5 : UInt8.ofNat c.toNat ≤ Bytes.ascii '9' := UInt8.le_iff_toNat_le.mpr (by rw [h3]; exact h2)
  simp [isIdentByte, h4, h5]

theorem digitBytes_injective {m n : Nat} (h : digitBytes m = digitBytes n) : m = n := by
  have back : ∀ k, (digitBytes k).map (fun b => Char.ofNat b.toNat) = Nat.toDigits 10 k := by
    intro k
    rw [digitBytes, List.map_map]
    refine (List.map_congr_left ?_).trans (List.map_id _)
    intro c hc
    have h2 := (toNat_digit hc).2
    have h3 : (UInt8.ofNat c.toNat).toNat = c.toNat := by
      rw [UInt8.toNat_ofNat']
      omega
    rw [Function.comp_apply, h3, Char.ofNat_toNat, id]
  have hd : Nat.toDigits 10 m = Nat.toDigits 10 n := by rw [← back, ← back, h]
  rw [← Nat.ofDigitChars_ten_toDigits (n := m), ← Nat.ofDigitChars_ten_toDigits (n := n), hd]

/-- The text before the depth in the key of a variable. -/
def varMark : Bytes := Bytes.ofString "var:"

theorem variableKey_eq (depth : Nat) (base : Bytes) :
    variableKey depth base = varMark ++ (digitBytes depth ++ Bytes.ascii ':' :: base) := by
  have h : (s!"var:{depth}:" : String) = "var:" ++ Nat.repr depth ++ ":" := by rfl
  rw [variableKey, h, ofString_append, ofString_append, ofString_repr, List.append_assoc, List.append_assoc]
  rfl

/-- The depth in the key of a variable ends at the colon. -/
theorem variableKey_split {d e : Nat} {b c r s : Bytes} (h : variableKey d b ++ r = variableKey e c ++ s) :
    d = e ∧ b ++ r = c ++ s := by
  simp only [variableKey_eq, List.append_assoc, List.cons_append] at h
  have hstop : ∀ t : Bytes, ∀ x ∈ (Bytes.ascii ':' :: t).head?, isIdentByte x = false := by
    intro t x hx
    cases hx
    decide
  obtain ⟨hd, h⟩ := run_inj (digitBytes_ident d) (digitBytes_ident e) (hstop _) (hstop _) (List.append_cancel_left h)
  exact ⟨digitBytes_injective hd, (List.cons.inj h).2⟩

/-- Keys of variables at different depths differ, whatever their bases. -/
theorem variableKey_depth {d e : Nat} {b c : Bytes} (h : variableKey d b = variableKey e c) : d = e :=
  (variableKey_split (congrArg (· ++ []) h)).1

/-- Two keys of variables are equal if the texts are. -/
theorem variableKey_append_inj {d e : Nat} {b c r s : Bytes} (hb : IsName b) (hc : IsName c) (hr : EndsName r) (hs : EndsName s)
    (h : variableKey d b ++ r = variableKey e c ++ s) : d = e ∧ b = c ∧ r = s := by
  obtain ⟨hd, h⟩ := variableKey_split h
  exact ⟨hd, isName_inj hb hc hr hs h⟩

end TermAux

/-! ## Reading a term -/

namespace TermAux

/-- A text at which a term ends. -/
def EndsTerm (r : Bytes) : Prop :=
  ∀ b ∈ r.head?, b = Bytes.ascii ',' ∨ b = Bytes.ascii ')' ∨ b = Bytes.ascii '}'

theorem endsTerm_nil : EndsTerm [] := by
  intro b hb
  cases hb

theorem endsTerm_comma (r : Bytes) : EndsTerm (Bytes.ascii ',' :: r) := by
  intro b hb
  cases hb
  exact .inl rfl

theorem endsTerm_paren (r : Bytes) : EndsTerm (Bytes.ascii ')' :: r) := by
  intro b hb
  cases hb
  exact .inr (.inl rfl)

theorem endsTerm_brace (r : Bytes) : EndsTerm (Bytes.ascii '}' :: r) := by
  intro b hb
  cases hb
  exact .inr (.inr rfl)

theorem EndsTerm.endsName {r : Bytes} (h : EndsTerm r) : EndsName r := by
  intro b hb
  rcases h b hb with rfl | rfl | rfl <;> decide

/-- The first byte that is no identifier byte. -/
def mark (bs : Bytes) : Option UInt8 :=
  (bs.dropWhile isIdentByte).head?

theorem mark_append {a r : Bytes} (ha : ∀ b ∈ a, isIdentByte b = true) (hr : ∀ b ∈ r.head?, isIdentByte b = false) :
    mark (a ++ r) = r.head? := by
  rw [mark, List.dropWhile_append_of_pos ha]
  cases r with
  | nil => rfl
  | cons b r => rw [List.dropWhile_cons_of_neg (by simp [hr b rfl])]

/-- The byte that tells the form of a term: the first one after the identifier bytes at its start. -/
def lead : Term → Option UInt8
  | .input => none
  | .psi _ none _ => some (Bytes.ascii '(')
  | .psi _ (some _) _ => some (Bytes.ascii '[')
  | .concat _ => some (Bytes.ascii '(')
  | .diamond .forward _ _ _ => some (Bytes.ascii '|')
  | .diamond .backward _ _ _ => some (Bytes.ascii '<')
  | .var _ _ => some (Bytes.ascii ':')
  | .fix _ _ _ _ => some (Bytes.ascii ' ')

theorem mark_run {a : Bytes} (b : UInt8) (r : Bytes) (ha : ∀ c ∈ a, isIdentByte c = true) (hb : isIdentByte b = false) :
    mark (a ++ b :: r) = some b := by
  rw [mark_append ha]
  · rfl
  · intro c hc
    cases hc
    exact hb

/-- The form of a term can be told from its text. -/
theorem mark_key {t : Term} (ht : t.Clean) {r : Bytes} (hr : EndsTerm r) : mark (t.key ++ r) = (lead t).or r.head? := by
  cases t with
  | input =>
    rw [Term.key, Store.inputKey, mark_append (by decide +kernel) fun b hb => (hr.endsName b hb).1]
    rfl
  | psi name arg t =>
    rw [Term.key, applied, bracketed_eq, List.append_assoc, List.append_assoc]
    cases arg with
    | none => exact mark_run _ _ ht.1.identBytes (by decide)
    | some a => exact mark_run _ _ ht.1.identBytes (by decide)
  | concat ts =>
    rw [Term.key, concatKey, applied, List.append_assoc]
    exact mark_run _ _ (by decide +kernel) (by decide)
  | diamond direction phi sigma t =>
    cases direction with
    | forward => exact mark_run (a := []) _ _ (by simp) (by decide)
    | backward => exact mark_run (a := []) _ _ (by simp) (by decide)
  | var depth base =>
    rw [Term.key, variableKey_eq]
    exact mark_run (a := Bytes.ofString "var") _ _ (by decide +kernel) (by decide)
  | fix least depth base t =>
    rw [Term.key, fixpointKey, List.append_assoc]
    cases least with
    | true => exact mark_run _ _ (by decide +kernel) (by decide)
    | false => exact mark_run _ _ (by decide +kernel) (by decide)

/-- Two terms whose texts go on alike have the same leading byte, or both are the input. -/
theorem lead_eq {t u : Term} {r s : Bytes} (ht : t.Clean) (hu : u.Clean) (hr : EndsTerm r) (hs : EndsTerm s)
    (h : t.key ++ r = u.key ++ s) : lead t = lead u := by
  have hm : (lead t).or r.head? = (lead u).or s.head? := by rw [← mark_key ht hr, ← mark_key hu hs, h]
  have stop : ∀ {v : Term} {q : Bytes}, EndsTerm q → ∀ b, lead v = some b → q.head? ≠ some b := by
    intro v q hq b hv hb
    have hb' := hq b hb
    unfold lead at hv
    split at hv <;> simp only [reduceCtorEq, Option.some.injEq] at hv <;> subst hv <;> revert hb' <;> decide
  cases hlt : lead t with
  | none =>
    cases hlu : lead u with
    | none => rfl
    | some b =>
      rw [hlt, hlu] at hm
      exact absurd hm (stop hr b hlu)
  | some a =>
    cases hlu : lead u with
    | none =>
      rw [hlt, hlu] at hm
      exact absurd hm.symm (stop hs a hlt)
    | some b =>
      rw [hlt, hlu] at hm
      exact hm

/-- A name is followed by a parenthesis where an operator is applied. -/
theorem endsName_paren (r : Bytes) : EndsName (Bytes.ascii '(' :: r) :=
  endsName_cons r (by decide) (by decide)

/-- The first byte of a name is an identifier byte. -/
theorem head_isName {n : Bytes} (hn : IsName n) (r : Bytes) : ∃ b ∈ (n ++ r).head?, isIdentByte b = true := by
  obtain ⟨name, arg, hname, rfl⟩ := hn
  obtain ⟨b, bs, rfl⟩ := List.exists_cons_of_ne_nil hname.nonempty
  refine ⟨b, ?_, hname.identBytes b List.mem_cons_self⟩
  rw [bracketed_eq]
  rfl

/-- Two message names, each of which may be missing, are equal if the texts up to the closing sign are. -/
theorem phi_inj {p q : Option Bytes} {b : UInt8} {r s : Bytes} (hp : ∀ x ∈ p, IsName x) (hq : ∀ x ∈ q, IsName x)
    (hb : isIdentByte b = false) (hb' : b ≠ Bytes.ascii '[') (h : p.getD [] ++ b :: r = q.getD [] ++ b :: s) :
    p = q ∧ r = s := by
  have clash : ∀ {n : Bytes} {u v : Bytes}, IsName n → b :: u ≠ n ++ v := by
    intro n u v hn hc
    obtain ⟨c, hc1, hc2⟩ := head_isName hn v
    rw [← hc] at hc1
    cases hc1
    rw [hb] at hc2
    cases hc2
  cases p with
  | none =>
    cases q with
    | none => exact ⟨rfl, (List.cons.inj h).2⟩
    | some y => exact absurd h (clash (hq y rfl))
  | some x =>
    cases q with
    | none => exact absurd h.symm (clash (hp x rfl))
    | some y =>
      obtain ⟨rfl, hrs⟩ := isName_inj (hp x rfl) (hq y rfl) (endsName_cons r hb hb') (endsName_cons s hb hb') h
      exact ⟨rfl, (List.cons.inj hrs).2⟩

/-- The key of the first of two or more parts, and what follows it. -/
theorem join_keys_cons_cons (t u : Term) (ts : List Term) (r : Bytes) :
    Bytes.join [Bytes.ascii ','] (Term.keys (t :: u :: ts)) ++ r =
      t.key ++ Bytes.ascii ',' :: (Bytes.join [Bytes.ascii ','] (Term.keys (u :: ts)) ++ r) := by
  simp [Term.keys, Bytes.join]

theorem isName_concat : IsName (Bytes.ofString "concat") :=
  ⟨Bytes.ofString "concat", none, ⟨by decide, by decide +kernel, by decide, by simp⟩, rfl⟩

theorem diamond_inj {d : Direction} {p q : Option Bytes} {m n r s : Bytes} (hp : ∀ x ∈ p, IsName x) (hq : ∀ x ∈ q, IsName x)
    (hm : IsName m) (hn : IsName n) (hr : EndsName r) (hs : EndsName s)
    (h : Expr.diamondKey d p m ++ r = Expr.diamondKey d q n ++ s) : p = q ∧ m = n ∧ r = s := by
  cases d with
  | forward =>
    simp only [Expr.diamondKey, List.cons_append, List.append_assoc, List.cons.injEq, true_and] at h
    obtain ⟨rfl, hrest⟩ := phi_inj hp hq (by decide) (by decide) h
    obtain ⟨rfl, hrs⟩ := isName_inj hm hn hr hs hrest
    exact ⟨rfl, rfl, hrs⟩
  | backward =>
    simp only [Expr.diamondKey, List.cons_append, List.append_assoc, List.cons.injEq, true_and] at h
    obtain ⟨rfl, hrest⟩ := phi_inj hp hq (by decide) (by decide) h
    obtain ⟨rfl, hrs⟩ := isName_inj hm hn hr hs hrest
    exact ⟨rfl, rfl, hrs⟩

/-- A fixpoint read up to its body. -/
theorem fixpoint_inj {l k : Bool} {d e : Nat} {b c t u r s : Bytes} (hb : IsName b) (hc : IsName c)
    (h : fixpointKey l (variableKey d b) t ++ r = fixpointKey k (variableKey e c) u ++ s) :
    l = k ∧ d = e ∧ b = c ∧ t ++ Bytes.ascii '}' :: r = u ++ Bytes.ascii '}' :: s := by
  have hword : l = k := by
    have hhead := congrArg List.head? h
    cases l <;> cases k
    · rfl
    · exact absurd (show some (Bytes.ascii 'n') = some (Bytes.ascii 'm') from hhead) (by decide)
    · exact absurd (show some (Bytes.ascii 'm') = some (Bytes.ascii 'n') from hhead) (by decide)
    · rfl
  subst hword
  simp only [fixpointKey, List.append_assoc, List.cons_append] at h
  have h1 := (List.cons.inj (List.append_cancel_left h)).2
  have hstop : ∀ v : Bytes, EndsName (Bytes.ofString ".\x7b" ++ v) := by
    intro v
    exact endsName_cons _ (by decide) (by decide)
  obtain ⟨rfl, rfl, h2⟩ := variableKey_append_inj hb hc (hstop _) (hstop _) h1
  exact ⟨rfl, rfl, rfl, List.append_cancel_left h2⟩

mutual

/-- A term can be read back from a text that starts with its key in one way only, and so can what follows. -/
theorem read_inj : ∀ (t u : Term) {r s : Bytes}, t.Clean → u.Clean → EndsTerm r → EndsTerm s → t.key ++ r = u.key ++ s →
    t = u ∧ r = s
  | .input, u, r, s, ht, hu, hr, hs, h => by
    cases u with
    | input => exact ⟨rfl, List.append_cancel_left h⟩
    | psi name arg u => cases arg <;> exact absurd (lead_eq ht hu hr hs h) (by simp [lead])
    | diamond direction phi sigma u => cases direction <;> exact absurd (lead_eq ht hu hr hs h) (by simp [lead])
    | _ => exact absurd (lead_eq ht hu hr hs h) (by simp [lead])
  | .psi name arg t, u, r, s, ht, hu, hr, hs, h => by
    have hlead := lead_eq ht hu hr hs h
    cases u with
    | psi name' arg' u =>
      simp only [Term.key, applied, List.append_assoc, List.cons_append, List.nil_append] at h
      obtain ⟨rfl, rfl, hrest⟩ := cleanName_inj ht.1 hu.1 (endsName_paren _) (endsName_paren _) h
      obtain ⟨rfl, hrs⟩ := read_inj t u ht.2 hu.2 (endsTerm_paren _) (endsTerm_paren _) (List.cons.inj hrest).2
      exact ⟨rfl, (List.cons.inj hrs).2⟩
    | concat us =>
      -- An operator may be named like the concatenation, but it has one operand only.
      obtain ⟨u, u', us, rfl⟩ : ∃ u u' vs, us = u :: u' :: vs := by
        match us, hu.1 with
        | u :: u' :: vs, _ => exact ⟨u, u', vs, rfl⟩
      simp only [Term.key, concatKey, applied, List.append_assoc, List.cons_append, List.nil_append] at h
      obtain ⟨-, hrest⟩ := isName_inj ⟨name, arg, ht.1, rfl⟩ isName_concat (endsName_paren _) (endsName_paren _) h
      have hrest := (List.cons.inj hrest).2
      rw [join_keys_cons_cons] at hrest
      obtain ⟨-, hrs⟩ := read_inj t u ht.2 hu.2.1 (endsTerm_paren _) (endsTerm_comma _) hrest
      exact absurd (List.cons.inj hrs).1 (by decide)
    | diamond direction phi sigma u => cases direction <;> cases arg <;> exact absurd hlead (by simp [lead]; try decide)
    | _ => cases arg <;> exact absurd hlead (by simp [lead]; try decide)
  | .concat ts, u, r, s, ht, hu, hr, hs, h => by
    have hlead := lead_eq ht hu hr hs h
    cases u with
    | psi name arg u =>
      match ts, ht with
      | t :: t' :: ts, ht =>
        simp only [Term.key, concatKey, applied, List.append_assoc, List.cons_append, List.nil_append] at h
        obtain ⟨-, hrest⟩ := isName_inj isName_concat ⟨name, arg, hu.1, rfl⟩ (endsName_paren _) (endsName_paren _) h
        have hrest := (List.cons.inj hrest).2
        rw [join_keys_cons_cons] at hrest
        obtain ⟨-, hrs⟩ := read_inj t u ht.2.1 hu.2 (endsTerm_comma _) (endsTerm_paren _) hrest
        exact absurd (List.cons.inj hrs).1 (by decide)
      | [], ht => exact absurd ht.1 (by simp)
      | [_], ht => exact absurd ht.1 (by simp)
    | concat us =>
      simp only [Term.key, concatKey, applied, List.append_assoc, List.cons_append, List.nil_append] at h
      have hne : ts ≠ [] := by rintro rfl; exact absurd ht.1 (by simp)
      have hne' : us ≠ [] := by rintro rfl; exact absurd hu.1 (by simp)
      obtain ⟨rfl, hrs⟩ := reads_inj ts us hne hne' ht.2 hu.2 (List.cons.inj (List.append_cancel_left h)).2
      exact ⟨rfl, hrs⟩
    | diamond direction phi sigma u => cases direction <;> exact absurd hlead (by simp [lead]; try decide)
    | _ => exact absurd hlead (by simp [lead]; try decide)
  | .diamond direction phi sigma t, u, r, s, ht, hu, hr, hs, h => by
    have hlead := lead_eq ht hu hr hs h
    cases u with
    | diamond direction' phi' sigma' u =>
      have hd : direction = direction' := by
        cases direction <;> cases direction' <;> first | rfl | exact absurd hlead (by simp [lead]; try decide)
      subst hd
      simp only [Term.key, applied, List.append_assoc, List.cons_append, List.nil_append] at h
      obtain ⟨rfl, rfl, hrest⟩ := diamond_inj ht.1 hu.1 ht.2.1 hu.2.1 (endsName_paren _) (endsName_paren _) h
      obtain ⟨rfl, hrs⟩ := read_inj t u ht.2.2 hu.2.2 (endsTerm_paren _) (endsTerm_paren _) (List.cons.inj hrest).2
      exact ⟨rfl, (List.cons.inj hrs).2⟩
    | psi name arg u => cases direction <;> cases arg <;> exact absurd hlead (by simp [lead]; try decide)
    | _ => cases direction <;> exact absurd hlead (by simp [lead]; try decide)
  | .var depth base, u, r, s, ht, hu, hr, hs, h => by
    have hlead := lead_eq ht hu hr hs h
    cases u with
    | var depth' base' =>
      obtain ⟨rfl, rfl, hrs⟩ := variableKey_append_inj ht hu hr.endsName hs.endsName h
      exact ⟨rfl, hrs⟩
    | psi name arg u => cases arg <;> exact absurd hlead (by simp [lead]; try decide)
    | diamond direction phi sigma u => cases direction <;> exact absurd hlead (by simp [lead]; try decide)
    | _ => exact absurd hlead (by simp [lead]; try decide)
  | .fix least depth base t, u, r, s, ht, hu, hr, hs, h => by
    have hlead := lead_eq ht hu hr hs h
    cases u with
    | fix least' depth' base' u =>
      obtain ⟨rfl, rfl, rfl, hrest⟩ := fixpoint_inj ht.1 hu.1 h
      obtain ⟨rfl, hrs⟩ := read_inj t u ht.2 hu.2 (endsTerm_brace _) (endsTerm_brace _) hrest
      exact ⟨rfl, (List.cons.inj hrs).2⟩
    | psi name arg u => cases arg <;> exact absurd hlead (by simp [lead]; try decide)
    | diamond direction phi sigma u => cases direction <;> exact absurd hlead (by simp [lead]; try decide)
    | _ => exact absurd hlead (by simp [lead]; try decide)

/-- The parts of a concatenation can be read back from their keys in one way only. -/
theorem reads_inj : ∀ (ts us : List Term) {r s : Bytes}, ts ≠ [] → us ≠ [] → Term.AllClean ts → Term.AllClean us →
    Bytes.join [Bytes.ascii ','] (Term.keys ts) ++ Bytes.ascii ')' :: r =
      Bytes.join [Bytes.ascii ','] (Term.keys us) ++ Bytes.ascii ')' :: s → ts = us ∧ r = s
  | [], _, _, _, hne, _, _, _, _ => absurd rfl hne
  | [t], us, r, s, _, hne, ht, hu, h => by
    match us, hne, hu, h with
    | [u], _, hu, h =>
      obtain ⟨rfl, hrs⟩ := read_inj t u ht.1 hu.1 (endsTerm_paren _) (endsTerm_paren _) h
      exact ⟨rfl, (List.cons.inj hrs).2⟩
    | u :: u' :: us, _, hu, h =>
      rw [join_keys_cons_cons] at h
      obtain ⟨-, hrs⟩ := read_inj t u ht.1 hu.1 (endsTerm_paren _) (endsTerm_comma _) h
      exact absurd (List.cons.inj hrs).1 (by decide)
  | t :: t' :: ts, us, r, s, _, hne, ht, hu, h => by
    match us, hne, hu, h with
    | [u], _, hu, h =>
      rw [join_keys_cons_cons] at h
      obtain ⟨-, hrs⟩ := read_inj t u ht.1 hu.1 (endsTerm_comma _) (endsTerm_paren _) h
      exact absurd (List.cons.inj hrs).1 (by decide)
    | u :: u' :: us, _, hu, h =>
      rw [join_keys_cons_cons, join_keys_cons_cons] at h
      obtain ⟨rfl, hrs⟩ := read_inj t u ht.1 hu.1 (endsTerm_comma _) (endsTerm_comma _) h
      obtain ⟨hts, hrs'⟩ := reads_inj (t' :: ts) (u' :: us) (by simp) (by simp) ht.2 hu.2 (List.cons.inj hrs).2
      exact ⟨by rw [hts], hrs'⟩

end

end TermAux

/-- Keys spell terms: two terms have the same key only if they are the same. -/
theorem Term.key_injective {t u : Term} (ht : t.Clean) (hu : u.Clean) (h : t.key = u.key) : t = u :=
  (TermAux.read_inj t u ht hu TermAux.endsTerm_nil TermAux.endsTerm_nil (by rw [h])).1

end ModalGraph
