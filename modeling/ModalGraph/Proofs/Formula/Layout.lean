import Mathlib.Data.List.DropRight
import ModalGraph.Proofs.Formula.Canonical

/-!
# The layout of formula text

The lexer loses nothing: a text is white space and the source texts of its tokens, one after the other (`LaidOut`). Each token stands
at its offset and is a lexeme of the language (`IsLexeme`), and no longer lexeme starts there. The lexer counts lines and columns byte
by byte, and each place it gives is the one after some bytes of the text (`IsPlace`); so its line and its column are those of its
offset (`Position.Exact`), wherever in a token or in white space the lexer gives up.
-/

namespace ModalGraph.Formula

open TermAux CanonicalAux NameAux

/-! ## Places -/

def newline : UInt8 := Bytes.ascii '\n'

/-- The line and the column of a place are those of its offset in a text. Both are counted from one. -/
structure Position.Exact (src : Bytes) (p : Position) : Prop where
  offset_le : p.offset ≤ src.length
  line_eq : p.line = 1 + (src.take p.offset).count newline
  column_eq : p.column = 1 + ((src.take p.offset).rtakeWhile (· != newline)).length

/-- A place that is reached by reading some bytes of a text. -/
def IsPlace (src : Bytes) (p : Position) : Prop :=
  ∃ pre, pre <+: src ∧ p = Position.start.after pre

namespace LayoutAux

theorem after_append (p : Position) (a b : Bytes) : p.after (a ++ b) = (p.after a).after b :=
  List.foldl_append

/-- The place after some bytes, counted over all of them. -/
theorem start_after (pre : Bytes) : Position.start.after pre =
    ⟨pre.length, 1 + pre.count newline, 1 + (pre.rtakeWhile (· != newline)).length⟩ := by
  induction pre using List.reverseRecOn with
  | nil => rfl
  | append_singleton pre b ih =>
    rw [after_append, ih, List.length_append, List.count_append, List.rtakeWhile_concat]
    by_cases hb : b = newline
    · subst hb
      rfl
    · have hne : (b == Bytes.ascii '\n') = false := beq_eq_false_iff_ne.mpr hb
      have hcount : [b].count newline = 0 := List.count_eq_zero.mpr fun hmem => hb (List.mem_singleton.mp hmem).symm
      rw [if_pos (bne_iff_ne.mpr hb), List.length_append, hcount]
      simp only [Position.after, List.foldl_cons, List.foldl_nil, Position.advance, hne, Bool.false_eq_true, if_false]
      rfl

end LayoutAux

open LayoutAux

theorem IsPlace.exact {src : Bytes} {p : Position} (h : IsPlace src p) : p.Exact src := by
  obtain ⟨pre, hpre, rfl⟩ := h
  rw [start_after]
  have htake : src.take pre.length = pre := (List.prefix_iff_eq_take.mp hpre).symm
  exact ⟨hpre.length_le, by rw [htake], by rw [htake]⟩

/-! ## Lexemes -/

/-- The source texts of the signs. -/
def signTexts : List Bytes :=
  ["||", "|>", "<|", "|", "<", ">", ";", "(", ")", ",", "."].map Bytes.ofString

/-- The source texts of the tokens: the signs, the words that open a fixpoint, and the names with their arguments. -/
def IsLexeme (text : Bytes) : Prop :=
  text ∈ signTexts ∨ text = muWord ∨ text = nuWord ∨ IsName text

namespace LayoutAux

/-- The first byte of a sign is no identifier byte, and that of any other lexeme is one. -/
theorem head_sign {text : Bytes} (h : text ∈ signTexts) : ∃ b rest, text = b :: rest ∧ isIdentByte b = false := by
  have hall : ∀ text ∈ signTexts, text.head?.any (fun b => !isIdentByte b) = true := by decide +kernel
  have htext := hall text h
  cases text with
  | nil => cases htext
  | cons b rest => exact ⟨b, rest, rfl, by simpa using htext⟩

theorem head_word {text : Bytes} (h : text = muWord ∨ text = nuWord ∨ IsName text) :
    ∃ b rest, text = b :: rest ∧ isIdentByte b = true := by
  rcases h with rfl | rfl | ⟨name, arg, hclean, rfl⟩
  · exact ⟨_, _, rfl, by decide⟩
  · exact ⟨_, _, rfl, by decide⟩
  · obtain ⟨b, name', rfl⟩ := List.exists_cons_of_ne_nil hclean.nonempty
    exact ⟨b, _, bracketed_eq _ _, hclean.identBytes b List.mem_cons_self⟩

end LayoutAux

theorem IsLexeme.ne_nil {text : Bytes} (h : IsLexeme text) : text ≠ [] := by
  rcases h with h | h
  · obtain ⟨b, rest, rfl, -⟩ := head_sign h
    exact List.cons_ne_nil b rest
  · obtain ⟨b, rest, rfl, -⟩ := head_word h
    exact List.cons_ne_nil b rest

/-- The source text of a lexeme. -/
def Lexeme.literal (l : Lexeme) : Bytes :=
  bracketed l.text l.arg

/-- A lexeme is found at the front of a text, as long as it says. -/
structure Lexeme.Starts (l : Lexeme) (src : Bytes) : Prop where
  lexeme : IsLexeme l.literal
  le : l.literal <+: src
  size_eq : l.size = l.literal.length
  kind_ne : l.kind ≠ .endOfInput

namespace LayoutAux

/-- A sign that is read is one of the signs. -/
theorem sign?_ok {b : UInt8} {rest : Bytes} {l : Lexeme} (h : sign? b rest = some l) :
    ∃ kind text, l = sign kind text ∧ text ∈ signTexts ∧ text <+: b :: rest ∧ kind ≠ .endOfInput := by
  unfold sign? at h
  -- The signs of two bytes, and then those of one.
  iterate 3
    rcases ite_eq_iff.mp h with ⟨hsign, h⟩ | ⟨-, h⟩
    · simp only [Bool.and_eq_true, beq_iff_eq] at hsign
      obtain ⟨rfl, hnext⟩ := hsign
      obtain ⟨more, rfl⟩ := List.head?_eq_some_iff.mp hnext
      cases h
      exact ⟨_, _, rfl, by decide +kernel, ⟨more, rfl⟩, by decide⟩
  iterate 8
    rcases ite_eq_iff.mp h with ⟨hsign, h⟩ | ⟨-, h⟩
    · obtain rfl := beq_iff_eq.mp hsign
      cases h
      exact ⟨_, _, rfl, by decide +kernel, ⟨rest, rfl⟩, by decide⟩
  cases h

/-- No longer sign starts where a sign is read. -/
theorem sign?_longest {b : UInt8} {rest text : Bytes} {l : Lexeme} (h : sign? b rest = some l) (htext : text ∈ signTexts)
    (hfront : text <+: b :: rest) : text.length ≤ l.literal.length := by
  have hall : ∀ text ∈ signTexts, text.length ≤ 1 ∨ text = [Bytes.ascii '|', Bytes.ascii '|'] ∨
      text = [Bytes.ascii '|', Bytes.ascii '>'] ∨ text = [Bytes.ascii '<', Bytes.ascii '|'] := by decide +kernel
  rcases hall text htext with hlen | rfl | rfl | rfl
  · obtain ⟨kind, sign, rfl, hsign, -, -⟩ := sign?_ok h
    obtain ⟨c, more, rfl, -⟩ := head_sign hsign
    exact Nat.le_trans hlen (Nat.succ_le_succ (Nat.zero_le _))
  all_goals
    obtain ⟨more, hmore⟩ := hfront
    cases hmore
    cases h
    exact Nat.le_refl _

/-- An argument that is read is closed by a bracket. -/
theorem argument_eq {name rest : Bytes} {l : Lexeme} (h : argument name rest = .ok l) :
    ∃ arg more, l = ⟨.identifier, name, some arg, name.length + arg.length + 2⟩ ∧ rest = arg ++ Bytes.ascii ']' :: more := by
  have hspan := List.takeWhile_append_dropWhile (p := isArgByte) (l := rest)
  unfold argument at h
  dsimp only at h
  split at h
  · cases h
  · rename_i b more hdrop
    split at h
    · rename_i hclose
      obtain rfl := beq_iff_eq.mp hclose
      rw [hdrop] at hspan
      exact ⟨_, more, (Except.ok.inj h).symm, hspan.symm⟩
    · cases h

/-- What is read as a word is the run of identifier bytes at the front, with the argument in brackets after it, if there is one. -/
theorem word_eq {src : Bytes} {l : Lexeme} (h : word src = .ok l) :
    l.text = src.takeWhile isIdentByte ∧ l.literal <+: src ∧ l.size = l.literal.length ∧
      (l.kind = .mu ∧ l.literal = muWord ∨ l.kind = .nu ∧ l.literal = nuWord ∨ l.kind = .identifier) := by
  have hspan := List.takeWhile_append_dropWhile (p := isIdentByte) (l := src)
  have hfront := List.takeWhile_prefix isIdentByte (l := src)
  unfold word at h
  dsimp only at h
  split at h
  · rename_i hmu
    obtain rfl := Except.ok.inj h
    exact ⟨rfl, hfront, rfl, .inl ⟨rfl, beq_iff_eq.mp hmu⟩⟩
  split at h
  · rename_i hnu
    obtain rfl := Except.ok.inj h
    exact ⟨rfl, hfront, rfl, .inr (.inl ⟨rfl, beq_iff_eq.mp hnu⟩)⟩
  split at h
  · rename_i b rest hdrop
    split at h
    · rename_i hopen
      obtain rfl := beq_iff_eq.mp hopen
      obtain ⟨arg, more, rfl, rfl⟩ := argument_eq h
      refine ⟨rfl, ⟨more, ?_⟩, ?_, .inr (.inr rfl)⟩
      · rw [hdrop] at hspan
        simpa [Lexeme.literal, bracketed] using hspan
      · simp [Lexeme.literal, bracketed]
        omega
    · obtain rfl := Except.ok.inj h
      exact ⟨rfl, hfront, rfl, .inr (.inr rfl)⟩
  · obtain rfl := Except.ok.inj h
    exact ⟨rfl, hfront, rfl, .inr (.inr rfl)⟩

theorem word_starts {b : UInt8} {rest : Bytes} {l : Lexeme} (hb : isIdentByte b = true) (h : word (b :: rest) = .ok l) :
    l.Starts (b :: rest) := by
  obtain ⟨-, hfront, hsize, ⟨hkind, hmu⟩ | ⟨hkind, hnu⟩ | hkind⟩ := word_eq h
  · exact ⟨.inr (.inl hmu), hfront, hsize, by simp [hkind]⟩
  · exact ⟨.inr (.inr (.inl hnu)), hfront, hsize, by simp [hkind]⟩
  · exact ⟨.inr (.inr (.inr ⟨_, _, word_clean hb h hkind, rfl⟩)), hfront, hsize, by simp [hkind]⟩

/-- No longer lexeme starts where a word is read. -/
theorem word_longest {src text : Bytes} {l : Lexeme} (h : word src = .ok l)
    (htext : text = muWord ∨ text = nuWord ∨ IsName text) (hfront : text <+: src) : text.length ≤ l.literal.length := by
  obtain ⟨hname, -⟩ := word_eq h
  -- A run of identifier bytes at the front is no longer than the longest one.
  have hrun : ∀ run : Bytes, run <+: src → (∀ c ∈ run, isIdentByte c = true) → run.length ≤ l.literal.length := by
    intro run hrun hident
    obtain ⟨more, hmore⟩ := hrun
    have hle : run.length ≤ l.text.length := by
      rw [hname, ← hmore, List.takeWhile_append_of_pos hident, List.length_append]
      exact Nat.le_add_right _ _
    rw [Lexeme.literal, bracketed_eq, List.length_append]
    omega
  rcases htext with rfl | rfl | ⟨name, arg, hclean, rfl⟩
  · exact hrun muWord hfront (List.all_eq_true.mp (by decide))
  · exact hrun nuWord hfront (List.all_eq_true.mp (by decide))
  · cases arg with
    | none => exact hrun name hfront hclean.identBytes
    | some arg =>
      obtain ⟨more, hmore⟩ := hfront
      rw [← hmore, word_ok hclean (by simp)] at h
      obtain rfl := Except.ok.inj h
      exact Nat.le_refl _

end LayoutAux

/-- The lexeme that is read stands at the front of the text. -/
theorem lexeme_starts {b : UInt8} {rest : Bytes} {l : Lexeme} (h : lexeme b rest = .ok l) : l.Starts (b :: rest) := by
  rw [lexeme] at h
  split at h
  · rename_i l' hsign
    obtain rfl := Except.ok.inj h
    obtain ⟨kind, text, rfl, htext, hfront, hkind⟩ := sign?_ok hsign
    exact ⟨.inl htext, hfront, rfl, hkind⟩
  · split at h
    · rename_i hb
      exact word_starts hb h
    · cases h

/-- No longer lexeme than the one that is read stands at the front of the text. -/
theorem lexeme_longest {b : UInt8} {rest text : Bytes} {l : Lexeme} (h : lexeme b rest = .ok l) (htext : IsLexeme text)
    (hfront : text <+: b :: rest) : text.length ≤ l.literal.length := by
  have hhead : ∀ {c : UInt8} {more : Bytes}, text = c :: more → c = b := by
    rintro c more rfl
    exact (List.cons_prefix_cons.mp hfront).1
  rw [lexeme] at h
  split at h
  · rename_i l' hsign
    obtain rfl := Except.ok.inj h
    rcases htext with htext | htext
    · exact sign?_longest hsign htext hfront
    · obtain ⟨c, more, rfl, hc⟩ := head_word htext
      obtain rfl := hhead rfl
      rw [sign?_of_isIdentByte hc] at hsign
      cases hsign
  · split at h
    · rename_i hb
      rcases htext with htext | htext
      · obtain ⟨c, more, rfl, hc⟩ := head_sign htext
        obtain rfl := hhead rfl
        rw [hc] at hb
        cases hb
      · exact word_longest h htext hfront
    · cases h

/-! ## Texts as their tokens -/

/-- A text that starts at some offset is its tokens, one after the other, with white space before each of them. Every token is a lexeme
at its offset, and no longer lexeme starts there. The last one is the end token, after the last byte. -/
inductive LaidOut : Nat → Bytes → List Token → Prop
  | done {o : Nat} {gap : Bytes} {p : Position} (space : ∀ b ∈ gap, isSpace b = true) (place : p.offset = o + gap.length) :
    LaidOut o gap [Token.eof p]
  | token {o : Nat} {gap rest : Bytes} {t : Token} {ts : List Token} (space : ∀ b ∈ gap, isSpace b = true)
    (place : t.pos.offset = o + gap.length) (kind : t.kind ≠ .endOfInput) (lexeme : IsLexeme t.literal)
    (longest : ∀ text, IsLexeme text → text <+: t.literal ++ rest → text.length ≤ t.literal.length)
    (tail : LaidOut (t.pos.offset + t.literal.length) rest ts) : LaidOut o (gap ++ (t.literal ++ rest)) (t :: ts)

namespace LaidOut

variable {o : Nat} {src : Bytes} {ts : List Token}

/-- White space in front of a text. -/
theorem cons_space {b : UInt8} (hb : isSpace b = true) (h : LaidOut (o + 1) src ts) : LaidOut o (b :: src) ts := by
  cases h with
  | done space place =>
    refine .done (List.forall_mem_cons.mpr ⟨hb, space⟩) ?_
    rw [List.length_cons]
    omega
  | @token _ gap rest t ts space place kind lexeme longest tail =>
    rw [← List.cons_append]
    refine .token (List.forall_mem_cons.mpr ⟨hb, space⟩) ?_ kind lexeme longest tail
    rw [List.length_cons]
    omega

/-- The end token, after the last byte. -/
theorem last (h : LaidOut o src ts) : ∃ front p, ts = front ++ [Token.eof p] ∧ p.offset = o + src.length := by
  induction h with
  | done _ place => exact ⟨[], _, rfl, place⟩
  | @token o gap rest t ts _ place _ _ _ _ ih =>
    obtain ⟨front, p, rfl, hp⟩ := ih
    refine ⟨t :: front, p, rfl, ?_⟩
    simp only [List.length_append]
    omega

/-- Every token stands at its offset. -/
theorem found {t : Token} (h : LaidOut o src ts) (ht : t ∈ ts) :
    ∃ before after, src = before ++ t.literal ++ after ∧ t.pos.offset = o + before.length := by
  induction h with
  | @done _ gap p _ place =>
    obtain rfl := List.mem_singleton.mp ht
    exact ⟨gap, [], by simp [Token.eof, Token.literal, bracketed], place⟩
  | @token o gap rest v ts _ place _ _ _ _ ih =>
    rcases List.mem_cons.mp ht with rfl | ht
    · exact ⟨gap, rest, by rw [List.append_assoc], place⟩
    · obtain ⟨before, after, rfl, hplace⟩ := ih ht
      refine ⟨gap ++ v.literal ++ before, after, by simp, ?_⟩
      simp only [List.length_append]
      omega

/-- The text from one token to the end of the next one is no lexeme. -/
theorem adjacent {front back : List Token} {t u : Token} (h : LaidOut o src (front ++ t :: u :: back)) (hu : u.kind ≠ .endOfInput) :
    ∃ before gap after, src = before ++ (t.literal ++ gap ++ u.literal) ++ after ∧ t.pos.offset = o + before.length ∧
      u.pos.offset = t.pos.offset + t.literal.length + gap.length ∧ ¬IsLexeme (t.literal ++ gap ++ u.literal) := by
  generalize hts : front ++ t :: u :: back = ts at h
  induction h generalizing front with
  | done _ _ =>
    have hlen := congrArg List.length hts
    simp only [List.length_append, List.length_cons, List.length_nil] at hlen
    omega
  | @token o gap rest v ts _ place _ _ longest tail ih =>
    cases front with
    | nil =>
      obtain ⟨rfl, rfl⟩ := List.cons.inj hts
      cases tail with
      | done => exact absurd rfl hu
      | @token _ gap' rest' _ _ _ place' _ lexeme' _ _ =>
        refine ⟨gap, gap', rest', by simp, place, place', fun hlexeme => ?_⟩
        have hlen := longest _ hlexeme ⟨rest', by simp⟩
        have hpos := List.length_pos_iff.mpr lexeme'.ne_nil
        simp only [List.length_append] at hlen
        omega
    | cons w front =>
      obtain ⟨rfl, rfl⟩ := List.cons.inj hts
      obtain ⟨before, gap', after, rfl, hplace, hplace', hlexeme⟩ := ih rfl
      refine ⟨gap ++ w.literal ++ before, gap', after, by simp, ?_, hplace', hlexeme⟩
      simp only [List.length_append]
      omega

end LaidOut

/-- The lexer lays out a text that is left after some bytes, or fails at a place of it. -/
theorem tokensFrom_laidOut (p : Position) (src : Bytes) : ∀ pre : Bytes, p = Position.start.after pre →
    (∀ ts, tokensFrom p src = .ok ts → LaidOut pre.length src ts ∧ ∀ t ∈ ts, IsPlace (pre ++ src) t.pos) ∧
      ∀ e, tokensFrom p src = .error e → IsPlace (pre ++ src) e.pos := by
  induction p, src using tokensFrom.induct with
  | case1 p =>
    rintro pre rfl
    rw [tokensFrom, List.append_nil]
    refine ⟨fun ts h => ?_, by simp⟩
    obtain rfl := Except.ok.inj h
    refine ⟨.done (List.forall_mem_nil _) (by rw [start_after]; rfl), fun t ht => ?_⟩
    obtain rfl := List.mem_singleton.mp ht
    exact ⟨pre, List.prefix_rfl, rfl⟩
  | case2 p b rest hs ih =>
    rintro pre rfl
    have hnext : (Position.start.after pre).advance b = Position.start.after (pre ++ [b]) := (after_append _ pre [b]).symm
    obtain ⟨hok, herror⟩ := ih (pre ++ [b]) hnext
    rw [List.append_assoc, List.singleton_append] at hok herror
    rw [tokensFrom, if_pos hs]
    refine ⟨fun ts h => ?_, herror⟩
    obtain ⟨hlaid, hplaces⟩ := hok ts h
    rw [List.length_append, List.length_singleton] at hlaid
    exact ⟨hlaid.cons_space hs, hplaces⟩
  | case3 p b rest hs f hf =>
    rintro pre rfl
    rw [tokensFrom, if_neg hs, hf]
    refine ⟨by simp, fun e h => ?_⟩
    obtain rfl := Except.error.inj h
    have htake := List.take_prefix f.skip (b :: rest)
    exact ⟨pre ++ (b :: rest).take f.skip, (List.prefix_append_right_inj pre).mpr htake, (after_append _ pre _).symm⟩
  | case4 p b rest hs l hl ih =>
    rintro pre rfl
    obtain ⟨hlexeme, ⟨more, hmore⟩, hsize, hkind⟩ := lexeme_starts hl
    have hpos : 0 < l.size := hsize ▸ List.length_pos_iff.mpr hlexeme.ne_nil
    have hcut : l.size - 1 + 1 = l.size := Nat.sub_add_cancel hpos
    have htake : b :: rest.take (l.size - 1) = l.literal := by
      rw [← List.take_succ_cons, hcut, ← hmore, hsize, List.take_left]
    have hdrop : rest.drop (l.size - 1) = more := by
      rw [← List.drop_succ_cons, hcut, ← hmore, hsize, List.drop_left]
    have hnext : ((Position.start.after pre).advance b).after (rest.take (l.size - 1)) = Position.start.after (pre ++ l.literal) := by
      rw [after_append, ← htake]
      rfl
    have hplace : (Position.start.after pre).offset = pre.length := by rw [start_after]
    obtain ⟨hok, herror⟩ := ih (pre ++ l.literal) hnext
    rw [hdrop, List.append_assoc, hmore] at hok herror
    rw [tokensFrom, if_neg hs, hl]
    dsimp only
    rw [hdrop]
    refine ⟨fun ts h => ?_, fun e h => ?_⟩
    · obtain ⟨us, hus, heq⟩ := bind_ok h
      cases heq
      obtain ⟨hlaid, hplaces⟩ := hok us hus
      rw [List.length_append, ← hplace] at hlaid
      refine ⟨?_, List.forall_mem_cons.mpr ⟨⟨pre, List.prefix_append pre _, rfl⟩, hplaces⟩⟩
      have hlongest : ∀ text, IsLexeme text → text <+: l.literal ++ more → text.length ≤ l.literal.length := fun text htext hfront =>
        lexeme_longest hl htext (hmore ▸ hfront)
      have htoken : LaidOut pre.length ([] ++ ((l.at (Position.start.after pre)).literal ++ more))
          (l.at (Position.start.after pre) :: us) :=
        .token (List.forall_mem_nil _) hplace hkind hlexeme hlongest hlaid
      rw [← hmore]
      exact htoken
    · rcases bind_error h with h | ⟨us, -, h⟩
      · exact herror e h
      · cases h

/-- The tokens of a text are laid out in it, at places of it. -/
theorem tokens_laidOut {src : Bytes} {ts : List Token} (h : tokens src = .ok ts) :
    LaidOut 0 src ts ∧ ∀ t ∈ ts, IsPlace src t.pos :=
  (tokensFrom_laidOut _ src [] rfl).1 ts h

/-- The lexer fails at a place of the text. -/
theorem tokens_error {src : Bytes} {e : SyntaxError} (h : tokens src = .error e) : IsPlace src e.pos :=
  (tokensFrom_laidOut _ src [] rfl).2 e h

end ModalGraph.Formula
