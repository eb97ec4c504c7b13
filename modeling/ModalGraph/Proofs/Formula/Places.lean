import ModalGraph.Proofs.Formula.Layout

/-!
# The places of syntax errors

Where the parser fails, it fails at one of the tokens of the text. It never runs out of tokens: those that are left always have the end
token among them (`Left`), which is not consumed. So every syntax error is at a place of the text, as every token is, and its line and
column are those of its offset (`tokens_lossless`).
-/

namespace ModalGraph.Formula

namespace PlacesAux

/-- Some of all tokens are left, and an end token is among them. -/
structure Left (all ts : List Token) : Prop where
  closed : ∃ t ∈ ts, t.kind = .endOfInput
  subset : ts ⊆ all

/-- What is read has a property and leaves tokens, or the failure is at one of the tokens. -/
def Located {α : Type} (all : List Token) (P : α → Prop) : Except SyntaxError (α × List Token) → Prop
  | .ok (a, rest) => P a ∧ Left all rest
  | .error e => ∃ t ∈ all, e.pos = t.pos

section

variable {all ts : List Token}

theorem Left.peek_mem (h : Left all ts) : peek ts ∈ all := by
  obtain ⟨t, ht, -⟩ := h.closed
  cases ts with
  | nil => cases ht
  | cons u ts => exact h.subset List.mem_cons_self

theorem Left.advance (h : Left all ts) : Left all (advance ts) := by
  unfold Formula.advance
  split
  · exact h
  · rename_i hkind
    refine ⟨?_, fun t ht => h.subset (List.mem_of_mem_tail ht)⟩
    obtain ⟨t, ht, hend⟩ := h.closed
    cases ts with
    | nil => cases ht
    | cons u ts =>
      rcases List.mem_cons.mp ht with rfl | ht
      · exact absurd hend hkind
      · exact ⟨t, ht, hend⟩

variable {α β : Type} {P : α → Prop} {Q : β → Prop}

theorem located_error {t : Token} (ht : t ∈ all) (fault : SyntaxFault) :
    Located all P (.error (t.error fault)) :=
  ⟨t, ht, rfl⟩

theorem Located.bind {x : Except SyntaxError (α × List Token)} {f : α × List Token → Except SyntaxError (β × List Token)}
    (h : Located all P x) (hf : ∀ a rest, P a → Left all rest → Located all Q (f (a, rest))) : Located all Q (x >>= f) := by
  match x, h with
  | .ok (a, rest), h => exact hf a rest h.1 h.2
  | .error e, h => exact h

/-! ## The parts of the parser -/

theorem located_need (kind : TokenKind) (what : String) (h : Left all ts) : Located all (· ∈ all) (need kind what ts) := by
  unfold need
  split
  · exact ⟨h.peek_mem, h.advance⟩
  · exact located_error h.peek_mem _

theorem located_operatorName (what : String) (h : Left all ts) : Located all (fun _ => True) (operatorName what ts) :=
  (located_need _ what h).bind fun _ _ _ hrest => ⟨trivial, hrest⟩

theorem left_optionalName (h : Left all ts) : Left all (optionalName ts).2 := by
  unfold optionalName
  split
  · exact h.advance
  · exact h

theorem located_plainDiamond (p : Position) (direction : Direction) (h : Left all ts) :
    Located all (fun _ => True) (plainDiamond p direction ts) :=
  (located_operatorName _ h).bind fun _ _ _ hrest => ⟨trivial, hrest⟩

theorem located_diamondBody (p : Position) (direction : Direction) (closing : TokenKind) (what : String) (h : Left all ts) :
    Located all (fun _ => True) (diamondBody p direction closing what ts) :=
  (located_need closing what (left_optionalName h)).bind fun _ _ _ hrest =>
    (located_operatorName _ hrest).bind fun _ _ _ hrest => ⟨trivial, hrest⟩

theorem located_binderHead (h : Left all ts) : Located all (fun _ => True) (binderHead ts) := by
  refine (located_need _ _ h).bind fun v rest hv hrest => ?_
  dsimp only
  split
  · exact located_error hv _
  · refine (located_need _ _ hrest).bind fun _ rest _ hrest => ?_
    refine (located_operatorName _ hrest).bind fun base rest _ hrest => ?_
    exact (located_need _ _ hrest).bind fun _ rest _ hrest => ⟨trivial, hrest⟩

/-! ## The parser -/

/-- All functions of the parser fail at a token, with some fuel. -/
structure Locates (all : List Token) (fuel : Nat) : Prop where
  expr : ∀ {scope ts}, Left all ts → Located all (fun _ => True) (Formula.expr fuel scope ts)
  parTail : ∀ {scope ts}, Left all ts → Located all (fun _ => True) (Formula.parTail fuel scope ts)
  seq : ∀ {scope ts}, Left all ts → Located all (fun _ => True) (Formula.seq fuel scope ts)
  seqTail : ∀ {scope p left ts}, Left all ts → Located all (fun _ => True) (Formula.seqTail fuel scope p left ts)
  unary : ∀ {scope ts}, Left all ts → Located all (fun _ => True) (Formula.unary fuel scope ts)

theorem locates_zero (all : List Token) : Locates all 0 where
  expr h := by rw [Formula.expr]; exact located_error h.peek_mem _
  parTail h := by rw [Formula.parTail]; exact located_error h.peek_mem _
  seq h := by rw [Formula.seq]; exact located_error h.peek_mem _
  seqTail h := by rw [Formula.seqTail]; exact located_error h.peek_mem _
  unary h := by rw [Formula.unary]; exact located_error h.peek_mem _

variable {fuel : Nat} {scope : List Bytes}

theorem expr_located (ih : Locates all fuel) (h : Left all ts) : Located all (fun _ => True) (Formula.expr (fuel + 1) scope ts) := by
  rw [Formula.expr]
  refine (ih.seq h).bind fun first rest _ hrest => (ih.parTail hrest).bind fun others rest _ hrest => ?_
  dsimp only
  split
  · exact ⟨trivial, hrest⟩
  · exact ⟨trivial, hrest⟩

theorem parTail_located (ih : Locates all fuel) (h : Left all ts) :
    Located all (fun _ => True) (Formula.parTail (fuel + 1) scope ts) := by
  rw [Formula.parTail]
  split
  · refine (ih.seq h.advance).bind fun e rest _ hrest => ?_
    exact (ih.parTail hrest).bind fun es rest _ hrest => ⟨trivial, hrest⟩
  · exact ⟨trivial, h⟩

theorem seqTail_located (ih : Locates all fuel) {p : Position} {left : Expr} (h : Left all ts) :
    Located all (fun _ => True) (Formula.seqTail (fuel + 1) scope p left ts) := by
  rw [Formula.seqTail]
  split
  · exact (ih.unary h.advance).bind fun right rest _ hrest => ih.seqTail hrest
  · exact ⟨trivial, h⟩

theorem unary_located (ih : Locates all fuel) (h : Left all ts) : Located all (fun _ => True) (Formula.unary (fuel + 1) scope ts) := by
  rw [Formula.unary]
  dsimp only
  split
  · exact located_plainDiamond _ _ h.advance
  · exact located_plainDiamond _ _ h.advance
  · exact located_diamondBody _ _ _ _ h.advance
  · exact located_diamondBody _ _ _ _ h.advance
  · split
    · exact located_error h.advance.peek_mem _
    · refine (ih.expr h.advance).bind fun e rest _ hrest => ?_
      dsimp only
      split
      · exact ⟨trivial, hrest.advance⟩
      · split
        · exact located_error h.peek_mem _
        · exact located_error hrest.peek_mem _
  · refine (located_binderHead h.advance).bind fun head rest _ hrest => ?_
    exact (ih.unary hrest).bind fun body rest _ hrest => ⟨trivial, hrest⟩
  · refine (located_binderHead h.advance).bind fun head rest _ hrest => ?_
    exact (ih.unary hrest).bind fun body rest _ hrest => ⟨trivial, hrest⟩
  · split
    · exact located_error h.peek_mem _
    · exact ⟨trivial, h.advance⟩
  · unfold unaryError
    split <;> exact located_error h.peek_mem _

theorem locates (all : List Token) (fuel : Nat) : Locates all fuel := by
  induction fuel with
  | zero => exact locates_zero all
  | succ fuel ih =>
    exact {
      expr := expr_located ih
      parTail := parTail_located ih
      seq := by
        intro scope ts h
        rw [Formula.seq]
        exact (ih.unary h).bind fun first rest _ hrest => ih.seqTail hrest
      seqTail := seqTail_located ih
      unary := unary_located ih }

/-- Where the parser fails, it fails at a token. -/
theorem parseTokens_error {e : SyntaxError} (hclosed : ∃ t ∈ ts, t.kind = .endOfInput) (h : parseTokens ts = .error e) :
    ∃ t ∈ ts, e.pos = t.pos := by
  have hall : Left ts ts := ⟨hclosed, List.Subset.refl ts⟩
  have hexpr : Located ts (fun _ => True) (Formula.expr (3 * ts.length + 3) [] ts) := (locates ts _).expr hall
  rcases bind_error h with h | ⟨⟨f, rest⟩, hf, h⟩
  · rwa [h] at hexpr
  · rw [hf] at hexpr
    dsimp only at h
    split at h
    · cases h
    · obtain rfl := Except.error.inj h
      refine ⟨peek rest, hexpr.2.peek_mem, ?_⟩
      unfold trailingError
      split <;> rfl

end

end PlacesAux

open PlacesAux

/-- Where a text cannot be parsed, the failure is at a place of it. -/
theorem parse_error {src : Bytes} {e : SyntaxError} (h : parse src = .error e) : IsPlace src e.pos := by
  rcases bind_error h with h | ⟨ts, hts, h⟩
  · exact tokens_error h
  · obtain ⟨hlaid, hplaces⟩ := tokens_laidOut hts
    obtain ⟨front, p, rfl, -⟩ := hlaid.last
    obtain ⟨t, ht, hpos⟩ := parseTokens_error ⟨Token.eof p, List.mem_append_right _ List.mem_cons_self, rfl⟩ h
    exact hpos ▸ hplaces t ht

/-- The bytes between two texts. -/
theorem extract_middle (before middle after : Bytes) :
    (before ++ middle ++ after).extract before.length (before.length + middle.length) = middle := by
  rw [List.extract_eq_take_drop, Nat.add_sub_cancel_left, List.append_assoc, List.drop_left, List.take_left]

/-- A text that has tokens is white space and the source texts of these, in order, each at its offset, and the end token after the last
byte; no two tokens that follow each other could be read as one. Every token and every syntax error is at a place whose line and column
are those of its offset. -/
theorem tokens_lossless (src : Bytes) :
    (∀ ts, tokens src = .ok ts → LaidOut 0 src ts ∧
      (∃ front p, ts = front ++ [Token.eof p] ∧ p.offset = src.length) ∧
      (∀ t ∈ ts, src.extract t.pos.offset (t.pos.offset + t.literal.length) = t.literal) ∧
      (∀ front t u back, ts = front ++ t :: u :: back → u.kind ≠ .endOfInput →
        ¬IsLexeme (src.extract t.pos.offset (u.pos.offset + u.literal.length))) ∧
      ∀ t ∈ ts, t.pos.Exact src) ∧
    (∀ e, tokens src = .error e → e.pos.Exact src) ∧
    ∀ e, parse src = .error e → e.pos.Exact src := by
  refine ⟨fun ts h => ?_, fun e h => (tokens_error h).exact, fun e h => (parse_error h).exact⟩
  obtain ⟨hlaid, hplaces⟩ := tokens_laidOut h
  refine ⟨hlaid, ?_, fun t ht => ?_, ?_, fun t ht => (hplaces t ht).exact⟩
  · obtain ⟨front, p, hts, hp⟩ := hlaid.last
    exact ⟨front, p, hts, by rw [hp, Nat.zero_add]⟩
  · obtain ⟨before, after, rfl, hplace⟩ := hlaid.found ht
    rw [Nat.zero_add] at hplace
    rw [hplace]
    exact extract_middle before t.literal after
  · rintro front t u back rfl hu
    obtain ⟨before, gap, after, rfl, hplace, hplace', hlexeme⟩ := hlaid.adjacent hu
    rw [Nat.zero_add] at hplace
    have hend : u.pos.offset + u.literal.length = before.length + (t.literal ++ gap ++ u.literal).length := by
      simp only [List.length_append]
      omega
    rwa [hplace, hend, extract_middle]

namespace Sample

/-- Two tokens on each of two lines, the last one with an argument. -/
def lines : Bytes := Bytes.ofString "a ;\n\t|>or[x y]"

/-- A text that ends in its second line, where an operator is missing. -/
def cut : Bytes := Bytes.ofString "a||\n b;"

end Sample

theorem tokens_lossless_sample : (∃ ts, tokens Sample.lines = .ok ts ∧ LaidOut 0 Sample.lines ts ∧ ∀ t ∈ ts, t.pos.Exact Sample.lines) ∧
    ∃ e, parse Sample.cut = .error e ∧ e.pos = ⟨7, 2, 4⟩ ∧ e.pos.Exact Sample.cut := by
  have hread : (tokens Sample.lines).isOk = true := by decide +kernel
  have hfail : (match parse Sample.cut with | .ok _ => none | .error e => some e.pos) = some ⟨7, 2, 4⟩ := by decide +kernel
  obtain ⟨hread', -, -⟩ := tokens_lossless Sample.lines
  obtain ⟨-, -, hfail'⟩ := tokens_lossless Sample.cut
  constructor
  · obtain ⟨ts, hts⟩ := exists_of_isOk hread
    obtain ⟨hlaid, -, -, -, hplaces⟩ := hread' ts hts
    exact ⟨ts, hts, hlaid, hplaces⟩
  · cases hparse : parse Sample.cut with
    | ok e =>
      rw [hparse] at hfail
      cases hfail
    | error e =>
      rw [hparse] at hfail
      exact ⟨e, rfl, Option.some.inj hfail, hfail' e hparse⟩

end ModalGraph.Formula
