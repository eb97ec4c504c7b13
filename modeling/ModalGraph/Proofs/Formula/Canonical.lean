import ModalGraph.Proofs.Compiler.Term
import ModalGraph.Proofs.Formula.Grammar

/-!
# The canonical text of a formula

`Expr.key` writes a formula that text can spell in a way that reads back: the text is split into tokens that the grammar derives for
the formula, up to places (`spelled`), so parsing it gives the formula, up to places (`key_parses_back`). A name ends at the byte after
it, whatever the formula; `|` and `<` are read alone before a message name and together with the next sign otherwise; every composition
is in parentheses, so that each canonical text is one `unary`.
-/

namespace ModalGraph.Formula

open TermAux

namespace Expr

mutual

/-- A formula without the places of its parts. -/
def unplaced : Expr → Expr
  | .atom _ name arg => .atom Position.none name arg
  | .seq _ left right => .seq Position.none left.unplaced right.unplaced
  | .par _ children => .par Position.none (unplacedAll children)
  | .diamond _ direction phi sigma => .diamond Position.none direction phi sigma
  | .fix _ least v base body => .fix Position.none least v base body.unplaced
  | .var _ name => .var Position.none name
  | .hole => .hole

/-- Several formulas without the places of their parts. -/
def unplacedAll : List Expr → List Expr
  | [] => []
  | e :: es => e.unplaced :: unplacedAll es

end

theorem length_unplacedAll (es : List Expr) : (unplacedAll es).length = es.length := by
  induction es with
  | nil => rfl
  | cons e es ih => rw [unplacedAll, List.length_cons, List.length_cons, ih]

end Expr

/-! ## Reading tokens one by one -/

/-- Some bytes are read as tokens, from a place to a place, before some more bytes. -/
def Lexes (p : Position) (src rest : Bytes) (ts : List Token) (q : Position) : Prop :=
  tokensFrom p (src ++ rest) = (ts ++ ·) <$> tokensFrom q rest

/-- What is read before more bytes, and then the tokens of these. -/
theorem Lexes.append {p q r : Position} {a b mid rest : Bytes} {ts us : List Token} (h : Lexes p a mid ts q)
    (h' : Lexes q b rest us r) (hmid : mid = b ++ rest) : Lexes p (a ++ b) rest (ts ++ us) r := by
  unfold Lexes at h h' ⊢
  rw [List.append_assoc, ← hmid, h, hmid, h']
  cases tokensFrom r rest with
  | error f => rfl
  | ok more => exact congrArg Except.ok (List.append_assoc ts us more).symm

namespace CanonicalAux

/-- A space is dropped. -/
theorem lexes_space (p : Position) (rest : Bytes) :
    Lexes p [Bytes.ascii ' '] rest [] (p.advance (Bytes.ascii ' ')) := by
  unfold Lexes
  rw [List.singleton_append, tokensFrom, if_pos (by decide)]
  cases tokensFrom (p.advance (Bytes.ascii ' ')) rest <;> rfl

/-- The bytes of a lexeme are read as its token. -/
theorem lexes_lexeme {b : UInt8} {src rest : Bytes} {l : Lexeme} (p : Position) (hspace : isSpace b = false)
    (h : lexeme b (src ++ rest) = .ok l) (hsize : l.size = src.length + 1) :
    Lexes p (b :: src) rest [l.at p] ((p.advance b).after src) := by
  unfold Lexes
  rw [List.cons_append, tokensFrom, if_neg (by simp [hspace]), h]
  dsimp only
  rw [hsize, Nat.add_sub_cancel, List.take_left, List.drop_left]
  cases tokensFrom ((p.advance b).after src) rest <;> rfl

/-! ### Names -/

/-- A byte that is no identifier byte is no byte of a name. -/
theorem ne_of_isIdentByte {b c : UInt8} (hb : isIdentByte b = true) (hc : isIdentByte c = false) : (b == c) = false :=
  beq_eq_false_iff_ne.mpr fun h => by rw [h, hc] at hb; cases hb

/-- An identifier byte starts no sign. -/
theorem sign?_of_isIdentByte {b : UInt8} (hb : isIdentByte b = true) (rest : Bytes) : sign? b rest = none := by
  have hne : ∀ c, isIdentByte c = false → (b == c) = false := fun c => ne_of_isIdentByte hb
  simp [sign?, hne _ (show isIdentByte (Bytes.ascii '|') = false by decide),
    hne _ (show isIdentByte (Bytes.ascii '<') = false by decide), hne _ (show isIdentByte (Bytes.ascii '>') = false by decide),
    hne _ (show isIdentByte (Bytes.ascii ';') = false by decide), hne _ (show isIdentByte (Bytes.ascii '(') = false by decide),
    hne _ (show isIdentByte (Bytes.ascii ')') = false by decide), hne _ (show isIdentByte (Bytes.ascii ',') = false by decide),
    hne _ (show isIdentByte (Bytes.ascii '.') = false by decide)]

/-- The first byte of a diamond. -/
def openingByte : Direction → UInt8
  | .forward => Bytes.ascii '|'
  | .backward => Bytes.ascii '<'

/-- The byte before the aggregation name of a diamond. -/
def closingByte : Direction → UInt8
  | .forward => Bytes.ascii '>'
  | .backward => Bytes.ascii '|'

theorem diamondKey_eq (direction : Direction) (phi : Option Bytes) (sigma : Bytes) :
    Expr.diamondKey direction phi sigma = openingByte direction :: (phi.getD [] ++ closingByte direction :: sigma) := by
  cases direction <;> rfl

theorem sign?_bar {b : UInt8} (hb : isIdentByte b = true) (rest : Bytes) :
    sign? (Bytes.ascii '|') (b :: rest) = some (sign .bar [Bytes.ascii '|']) := by
  have hbar := ne_of_isIdentByte hb (show isIdentByte (Bytes.ascii '|') = false by decide)
  have hgreater := ne_of_isIdentByte hb (show isIdentByte (Bytes.ascii '>') = false by decide)
  simp [sign?, hbar, hgreater]

theorem sign?_less {b : UInt8} (hb : isIdentByte b = true) (rest : Bytes) :
    sign? (Bytes.ascii '<') (b :: rest) = some (sign .less [Bytes.ascii '<']) := by
  have hbar := ne_of_isIdentByte hb (show isIdentByte (Bytes.ascii '|') = false by decide)
  have hless : (Bytes.ascii '<' == Bytes.ascii '|') = false := by decide
  simp [sign?, hbar, hless]

/-- An identifier byte is no white space. -/
theorem isSpace_of_isIdentByte {b : UInt8} (hb : isIdentByte b = true) : isSpace b = false := by
  have hne : ∀ c, isIdentByte c = false → (b == c) = false := fun c => ne_of_isIdentByte hb
  simp [isSpace, hne _ (show isIdentByte (Bytes.ascii ' ') = false by decide),
    hne _ (show isIdentByte (Bytes.ascii '\t') = false by decide), hne _ (show isIdentByte (Bytes.ascii '\r') = false by decide),
    hne _ (show isIdentByte (Bytes.ascii '\n') = false by decide)]

/-- A text that starts with an identifier byte is read as a word. -/
theorem lexeme_word {b : UInt8} (hb : isIdentByte b = true) (rest : Bytes) : lexeme b rest = word (b :: rest) := by
  rw [lexeme, sign?_of_isIdentByte hb]
  exact if_pos hb

/-- A run of bytes of one kind ends at the first byte of another kind. -/
theorem span_run {p : UInt8 → Bool} {a r : Bytes} (ha : ∀ b ∈ a, p b = true) (hr : ∀ b ∈ r.head?, p b = false) :
    (a ++ r).takeWhile p = a ∧ (a ++ r).dropWhile p = r := by
  rw [List.takeWhile_append_of_pos ha, List.dropWhile_append_of_pos ha]
  cases r with
  | nil => exact ⟨List.append_nil a, rfl⟩
  | cons b r =>
    have hb : ¬p b = true := by simp [hr b rfl]
    rw [List.takeWhile_cons_of_neg hb, List.dropWhile_cons_of_neg hb]
    exact ⟨List.append_nil a, rfl⟩

/-- An argument in brackets is read up to its closing bracket. -/
theorem argument_ok (name : Bytes) {arg : Bytes} (rest : Bytes) (h : ∀ b ∈ arg, isArgByte b = true) :
    argument name (arg ++ Bytes.ascii ']' :: rest) = .ok ⟨.identifier, name, some arg, name.length + arg.length + 2⟩ := by
  have hstop : ∀ b ∈ (Bytes.ascii ']' :: rest).head?, isArgByte b = false := by
    intro b hb
    cases hb
    decide
  obtain ⟨htake, hdrop⟩ := span_run h hstop
  simp [argument, htake, hdrop]

/-- A name is read with its argument, and without one where the text ends a name. -/
theorem word_ok {name : Bytes} {arg : Option Bytes} {rest : Bytes} (h : CleanName name arg) (hrest : arg = none → EndsName rest) :
    word (bracketed name arg ++ rest) = .ok ⟨.identifier, name, arg, (bracketed name arg).length⟩ := by
  obtain ⟨htake, hdrop⟩ := span_run h.identBytes (head_argumentText arg hrest)
  rw [← List.append_assoc, ← bracketed_eq] at htake hdrop
  rw [word, htake, if_neg (by simpa using h.notBinder.1), if_neg (by simpa using h.notBinder.2), hdrop]
  cases arg with
  | none =>
    show (match rest with | b :: r => _ | [] => _) = _
    cases rest with
    | nil => rfl
    | cons b rest => exact if_neg (by simpa using (hrest rfl b rfl).2)
  | some a =>
    show (if (Bytes.ascii '[' == Bytes.ascii '[') = true then argument name (a ++ [Bytes.ascii ']'] ++ rest) else _) = _
    rw [if_pos (by decide), List.append_assoc, List.singleton_append, argument_ok name rest (h.argBytes a rfl)]
    simp [bracketed]
    omega

/-- A name with its argument is read as one token. -/
theorem lexes_name {name : Bytes} {arg : Option Bytes} {rest : Bytes} (p : Position) (h : CleanName name arg)
    (hrest : EndsName rest) :
    ∃ t q, Lexes p (bracketed name arg) rest [t] q ∧ t.kind = .identifier ∧ t.text = name ∧ t.arg = arg := by
  obtain ⟨b, name', rfl⟩ := List.exists_cons_of_ne_nil h.nonempty
  have hb : isIdentByte b = true := h.identBytes b List.mem_cons_self
  have hword := word_ok h fun _ => hrest
  obtain ⟨src, hsrc⟩ : ∃ src, bracketed (b :: name') arg = b :: src := ⟨name' ++ argumentText arg, bracketed_eq _ _⟩
  rw [hsrc] at hword ⊢
  have hlexeme := (lexeme_word hb (src ++ rest)).trans hword
  exact ⟨_, _, lexes_lexeme p (isSpace_of_isIdentByte hb) hlexeme rfl, rfl, rfl, rfl⟩

/-- The source form of a name is read as a token of that source form. -/
theorem lexes_literal {name rest : Bytes} (p : Position) (h : IsName name) (hrest : EndsName rest) :
    ∃ t q, Lexes p name rest [t] q ∧ t.kind = .identifier ∧ t.literal = name := by
  obtain ⟨name, arg, hclean, rfl⟩ := h
  obtain ⟨t, q, hlex, hk, rfl, rfl⟩ := lexes_name p hclean hrest
  exact ⟨t, q, hlex, hk, rfl⟩

/-! ### Signs and binder words -/

/-- A sign is read as its token. -/
theorem lexes_sign {b : UInt8} {src rest : Bytes} (kind : TokenKind) (p : Position) (hspace : isSpace b = false)
    (h : sign? b (src ++ rest) = some (sign kind (b :: src))) : ∃ t q, Lexes p (b :: src) rest [t] q ∧ t.kind = kind := by
  have hlexeme : lexeme b (src ++ rest) = .ok (sign kind (b :: src)) := by rw [lexeme, h]
  exact ⟨_, _, lexes_lexeme p hspace hlexeme rfl, rfl⟩

/-- A sign of one byte that never starts a longer one. -/
theorem lexes_single (c : Char) (kind : TokenKind) (p : Position) (rest : Bytes) (hspace : isSpace (Bytes.ascii c) = false)
    (h : sign? (Bytes.ascii c) rest = some (sign kind [Bytes.ascii c])) :
    ∃ t q, Lexes p [Bytes.ascii c] rest [t] q ∧ t.kind = kind :=
  lexes_sign kind p hspace h

/-- A sign of one byte before a name is read alone. -/
theorem lexes_alone {c : Char} {kind : TokenKind} (p : Position) {name : Bytes} (h : IsName name) (rest : Bytes)
    (hspace : isSpace (Bytes.ascii c) = false)
    (hsign : ∀ b r, isIdentByte b = true → sign? (Bytes.ascii c) (b :: r) = some (sign kind [Bytes.ascii c])) :
    ∃ t q, Lexes p [Bytes.ascii c] (name ++ rest) [t] q ∧ t.kind = kind := by
  obtain ⟨name, arg, hclean, rfl⟩ := h
  obtain ⟨b, name', rfl⟩ := List.exists_cons_of_ne_nil hclean.nonempty
  refine lexes_sign kind p hspace ?_
  rw [bracketed_eq]
  exact hsign b _ (hclean.identBytes b List.mem_cons_self)

/-- The first sign of a diamond before a message name is read alone. -/
theorem lexes_opening (direction : Direction) (p : Position) {name : Bytes} (h : IsName name) (rest : Bytes) :
    ∃ t q, Lexes p [openingByte direction] (name ++ rest) [t] q ∧ t.kind = direction.opening := by
  cases direction with
  | forward => exact lexes_alone p h rest (by decide) fun b r hb => sign?_bar hb r
  | backward => exact lexes_alone p h rest (by decide) fun b r hb => sign?_less hb r

/-- The second sign of a diamond before the aggregation name is read alone. -/
theorem lexes_closing (direction : Direction) (p : Position) {name : Bytes} (h : IsName name) (rest : Bytes) :
    ∃ t q, Lexes p [closingByte direction] (name ++ rest) [t] q ∧ t.kind = direction.closing := by
  cases direction with
  | forward => exact lexes_alone p h rest (by decide) fun _ _ _ => rfl
  | backward => exact lexes_alone p h rest (by decide) fun b r hb => sign?_bar hb r

/-- The two signs of a diamond without message name are read together. -/
theorem lexes_joined (direction : Direction) (p : Position) (rest : Bytes) :
    ∃ t q, Lexes p [openingByte direction, closingByte direction] rest [t] q ∧ t.kind = direction.joined := by
  cases direction with
  | forward => exact lexes_sign .rightDiamond p (by decide) rfl
  | backward => exact lexes_sign .leftDiamond p (by decide) rfl

/-- A word that opens a fixpoint is read as its token before a space. -/
theorem lexes_binderWord (least : Bool) (p : Position) (rest : Bytes) :
    ∃ t q, Lexes p (Expr.binderWord least) (Bytes.ascii ' ' :: rest) [t] q ∧ t.kind = binderKind least := by
  have hstop : ∀ b ∈ (Bytes.ascii ' ' :: rest).head?, isIdentByte b = false := by
    intro b hb
    cases hb
    decide
  have hident : ∀ b ∈ Expr.binderWord least, isIdentByte b = true := by cases least <;> decide +kernel
  have hword : word (Expr.binderWord least ++ Bytes.ascii ' ' :: rest) =
      .ok ⟨binderKind least, Expr.binderWord least, none, 2⟩ := by
    rw [word, (span_run hident hstop).1]
    cases least <;> rfl
  obtain ⟨b, hsrc⟩ : ∃ b, Expr.binderWord least = [b, Bytes.ascii 'u'] := by
    cases least
    · exact ⟨Bytes.ascii 'n', by decide +kernel⟩
    · exact ⟨Bytes.ascii 'm', by decide +kernel⟩
  rw [hsrc] at hword hident ⊢
  have hb := hident b List.mem_cons_self
  exact ⟨_, _, lexes_lexeme p (isSpace_of_isIdentByte hb) ((lexeme_word hb _).trans hword) rfl, rfl⟩

end CanonicalAux

open CanonicalAux

/-! ## The tokens of a canonical text -/

/-- The tokens of the canonical text of a formula, before a text that ends a name, are derivable as one `unary`, and the tree is the
formula up to places. -/
def Expr.Spelled (scope : List Bytes) (e : Expr) : Prop :=
  ∀ p rest, EndsName rest → ∃ ts q e', Lexes p e.key rest ts q ∧ IsUnary scope ts e' ∧ e'.unplaced = e.unplaced

/-- The tokens of the canonical texts of several formulas, joined by the parallel sign, are derivable as a chain of them. -/
def Expr.AllSpelled (scope : List Bytes) (es : List Expr) : Prop :=
  ∀ p rest, EndsName rest → ∃ ts q es', Lexes p (Expr.keys es) rest ts q ∧ IsChain scope ts es' ∧
    Expr.unplacedAll es' = Expr.unplacedAll es

section

variable {scope : List Bytes}

theorem atom_spelled (pos : Position) {name : Bytes} {arg : Option Bytes} (h : CleanName name arg)
    (hout : arg = none → name ∉ scope) : (Expr.atom pos name arg).Spelled scope := by
  intro p rest hrest
  obtain ⟨t, q, hlex, hk, rfl, rfl⟩ := lexes_name p h hrest
  exact ⟨[t], q, _, hlex, .atom hk hout, rfl⟩

/-- A variable is spelled by its name, which is the clean name of a binder. -/
theorem var_spelled (pos : Position) {name : Bytes} (h : CleanName name none) (hmem : name ∈ scope) :
    (Expr.var pos name).Spelled scope := by
  intro p rest hrest
  obtain ⟨t, q, hlex, hk, rfl, harg⟩ := lexes_name p h hrest
  exact ⟨[t], q, _, hlex, .var hk harg hmem, rfl⟩

theorem diamond_spelled (pos : Position) (direction : Direction) {phi : Option Bytes} {sigma : Bytes} (hphi : ∀ x ∈ phi, IsName x)
    (hsigma : IsName sigma) : (Expr.diamond pos direction phi sigma).Spelled scope := by
  intro p rest hrest
  rw [Expr.key, diamondKey_eq]
  cases phi with
  | none =>
    obtain ⟨d, q, hd, hdk⟩ := lexes_joined direction p (sigma ++ rest)
    obtain ⟨s, r, hs, hsk, rfl⟩ := lexes_literal q hsigma hrest
    exact ⟨[d, s], r, _, hd.append hs rfl, .diamond (.joined hdk hsk), rfl⟩
  | some phi =>
    have hphi := hphi phi rfl
    have hends : EndsName (closingByte direction :: (sigma ++ rest)) := endsName_cons _ (by cases direction <;> decide)
      (by cases direction <;> decide)
    obtain ⟨o, q₁, ho, hok⟩ := lexes_opening direction p hphi (closingByte direction :: (sigma ++ rest))
    obtain ⟨f, q₂, hf, hfk, rfl⟩ := lexes_literal q₁ hphi hends
    obtain ⟨c, q₃, hc, hck⟩ := lexes_closing direction q₂ hsigma rest
    obtain ⟨s, r, hs, hsk, rfl⟩ := lexes_literal q₃ hsigma hrest
    have hlex := ho.append (hf.append (hc.append hs rfl) rfl) (by simp)
    exact ⟨[o, f, c, s], r, _, hlex, .diamond (.labelled hok hfk hck hsk), rfl⟩

/-- Text between parentheses is spelled by the `expr` that it holds. -/
theorem group_spelled {e : Expr} (inner : Bytes) (hkey : e.key = Bytes.ascii '(' :: (inner ++ [Bytes.ascii ')']))
    (hinner : ∀ p rest, EndsName rest → ∃ ts q e', Lexes p inner rest ts q ∧ IsExpr scope ts e' ∧ e'.unplaced = e.unplaced) :
    e.Spelled scope := by
  intro p rest _
  have hends : EndsName ([Bytes.ascii ')'] ++ rest) := endsName_cons _ (by decide) (by decide)
  obtain ⟨o, q₁, ho, hok⟩ := lexes_single '(' .openParen p (inner ++ Bytes.ascii ')' :: rest) (by decide) rfl
  obtain ⟨ts, q₂, e', hts, hexpr, heq⟩ := hinner q₁ _ hends
  obtain ⟨c, q₃, hc, hck⟩ := lexes_single ')' .closeParen q₂ rest (by decide) rfl
  refine ⟨o :: (ts ++ [c]), q₃, e', ?_, .group hok hexpr hck, heq⟩
  rw [hkey]
  exact ho.append (hts.append hc rfl) (by simp)

theorem seq_spelled (pos : Position) {left right : Expr} (hl : left.Spelled scope) (hr : right.Spelled scope) :
    (Expr.seq pos left right).Spelled scope := by
  refine group_spelled (left.key ++ Bytes.ascii ';' :: right.key) (by simp [Expr.key]) fun p rest hrest => ?_
  have hends : EndsName (Bytes.ascii ';' :: (right.key ++ rest)) := endsName_cons _ (by decide) (by decide)
  obtain ⟨ts, q₁, l, hts, hlu, hleq⟩ := hl p _ hends
  obtain ⟨t, q₂, ht, htk⟩ := lexes_single ';' .semicolon q₁ (right.key ++ rest) (by decide) rfl
  obtain ⟨us, q₃, r, hus, hru, hreq⟩ := hr q₂ rest hrest
  refine ⟨ts ++ t :: us, q₃, _, hts.append (ht.append hus rfl) rfl, .single (.more (.single hlu) htk hru), ?_⟩
  rw [Expr.unplaced, Expr.unplaced, hleq, hreq]

/-- A chain of two formulas or more is spelled between parentheses. -/
theorem par_spelled (pos : Position) {children : List Expr} (hlen : 2 ≤ children.length) (h : Expr.AllSpelled scope children) :
    (Expr.par pos children).Spelled scope := by
  refine group_spelled (Expr.keys children) rfl fun p rest hrest => ?_
  obtain ⟨ts, q, es, hts, hchain, heq⟩ := h p rest hrest
  have hlen' : es.length = children.length := by
    rw [← Expr.length_unplacedAll, heq, Expr.length_unplacedAll]
  refine ⟨ts, q, _, hts, .parallel hchain (hlen'.symm ▸ hlen), ?_⟩
  rw [Expr.unplaced, Expr.unplaced, heq]

theorem fix_spelled (pos : Position) (least : Bool) {v base : Bytes} {body : Expr} (hv : CleanName v none) (hbase : IsName base)
    (hbody : body.Spelled (v :: scope)) : (Expr.fix pos least v base body).Spelled scope := by
  intro p rest hrest
  have hcomma : EndsName (Bytes.ascii ',' :: (base ++ Bytes.ascii '.' :: (body.key ++ rest))) :=
    endsName_cons _ (by decide) (by decide)
  have hdot : EndsName (Bytes.ascii '.' :: (body.key ++ rest)) := endsName_cons _ (by decide) (by decide)
  obtain ⟨w, q₁, hw, hwk⟩ := lexes_binderWord least p (v ++ Bytes.ascii ',' :: (base ++ Bytes.ascii '.' :: (body.key ++ rest)))
  have hspace := lexes_space q₁ (v ++ Bytes.ascii ',' :: (base ++ Bytes.ascii '.' :: (body.key ++ rest)))
  obtain ⟨tv, q₂, htv, htvk, rfl, harg⟩ := lexes_name (q₁.advance (Bytes.ascii ' ')) hv hcomma
  obtain ⟨tc, q₃, htc, htck⟩ := lexes_single ',' .comma q₂ (base ++ Bytes.ascii '.' :: (body.key ++ rest)) (by decide) rfl
  obtain ⟨tb, q₄, htb, htbk, rfl⟩ := lexes_literal q₃ hbase hdot
  obtain ⟨td, q₅, htd, htdk⟩ := lexes_single '.' .dot q₄ (body.key ++ rest) (by decide) rfl
  obtain ⟨ts, q₆, body', hts, hunary, heq⟩ := hbody q₅ rest hrest
  have hvar : Lexes (q₁.advance (Bytes.ascii ' ')) tv.text _ [tv] q₂ := htv
  -- The pieces from the last one to the first one, each before all that follows it.
  have hlex := htb.append (htd.append hts rfl) rfl
  have hlex := hvar.append (htc.append hlex (by simp)) (by simp)
  have hlex := hw.append (hspace.append hlex (by simp)) (by simp)
  refine ⟨w :: tv :: tc :: tb :: td :: ts, q₆, _, ?_, .binder hwk htvk harg htck htbk htdk hunary, ?_⟩
  · simpa [Expr.key] using hlex
  · rw [Expr.unplaced, Expr.unplaced, heq]

theorem single_spelled {e : Expr} (h : e.Spelled scope) : Expr.AllSpelled scope [e] := by
  intro p rest hrest
  obtain ⟨ts, q, e', hts, hunary, heq⟩ := h p rest hrest
  exact ⟨ts, q, [e'], hts, .last (.single hunary), congrArg (· :: []) heq⟩

theorem cons_spelled {e f : Expr} {es : List Expr} (h : e.Spelled scope) (hs : Expr.AllSpelled scope (f :: es)) :
    Expr.AllSpelled scope (e :: f :: es) := by
  intro p rest hrest
  have hends : EndsName (Bytes.ascii '|' :: Bytes.ascii '|' :: (Expr.keys (f :: es) ++ rest)) :=
    endsName_cons _ (by decide) (by decide)
  obtain ⟨ts, q₁, e', hts, hunary, heq⟩ := h p _ hends
  obtain ⟨t, q₂, ht, htk⟩ : ∃ t q, Lexes q₁ [Bytes.ascii '|', Bytes.ascii '|'] (Expr.keys (f :: es) ++ rest) [t] q ∧
      t.kind = .parallel := lexes_sign .parallel q₁ (by decide) rfl
  obtain ⟨us, q₃, es', hus, hchain, heqs⟩ := hs q₂ rest hrest
  refine ⟨ts ++ t :: us, q₃, e' :: es', ?_, .more (.single hunary) htk hchain, ?_⟩
  · exact hts.append (ht.append hus rfl) rfl
  · rw [Expr.unplacedAll, Expr.unplacedAll, heq, heqs]

end

mutual

/-- The canonical text of a formula that text can spell is split into tokens of that formula. -/
theorem spelled : ∀ (e : Expr) {scope : List Bytes}, (∀ v ∈ scope, CleanName v none) → e.WellFormed scope → e.Spelled scope
  | .atom pos _ _, _, _, h => atom_spelled pos h.1 h.2
  | .seq pos left right, _, hscope, h => seq_spelled pos (spelled left hscope h.1) (spelled right hscope h.2)
  | .par pos children, _, hscope, h => by
    refine par_spelled pos h.1 (allSpelled children hscope ?_ h.2)
    rintro rfl
    exact absurd h.1 (by simp)
  | .diamond pos direction _ _, _, _, h => diamond_spelled pos direction h.1 h.2
  | .fix pos least _ _ body, _, hscope, h =>
    fix_spelled pos least h.1 h.2.1 (spelled body (List.forall_mem_cons.mpr ⟨h.1, hscope⟩) h.2.2)
  | .var pos name, _, hscope, h => var_spelled pos (hscope name h) h
  | .hole, _, _, h => h.elim

theorem allSpelled : ∀ (es : List Expr) {scope : List Bytes}, (∀ v ∈ scope, CleanName v none) → es ≠ [] →
    Expr.AllWellFormed scope es → Expr.AllSpelled scope es
  | [], _, _, hne, _ => absurd rfl hne
  | [e], _, hscope, _, h => single_spelled (spelled e hscope h.1)
  | e :: f :: es, _, hscope, _, h =>
    cons_spelled (spelled e hscope h.1) (allSpelled (f :: es) hscope (List.cons_ne_nil f es) h.2)

end

/-- The canonical text of a formula that text can spell is parsed as that formula, up to places. -/
theorem Expr.WellFormed.parse_key {e : Expr} (h : e.WellFormed []) : ∃ e', parse e.key = .ok e' ∧ e'.unplaced = e.unplaced := by
  obtain ⟨ts, q, e', hlex, hunary, heq⟩ := spelled e (by simp) h Position.start [] nofun
  have htokens : tokens e.key = .ok (ts ++ [Token.eof q]) := by
    have hlex' : tokensFrom Position.start (e.key ++ []) = (ts ++ ·) <$> tokensFrom q [] := hlex
    rw [List.append_nil, show tokensFrom q [] = .ok [Token.eof q] by rw [tokensFrom]] at hlex'
    exact hlex'
  refine ⟨e', ?_, heq⟩
  rw [parse, htokens]
  exact (IsExpr.single (.single hunary)).parseTokens rfl []

/-- The canonical text and the parser are inverse up to places: every formula that the parser returns is well-formed, and the canonical
text of a well-formed formula is parsed as that formula. -/
theorem key_parses_back : (∀ src e, parse src = .ok e → e.WellFormed []) ∧
    ∀ e : Expr, e.WellFormed [] → ∃ e', parse e.key = .ok e' ∧ e'.unplaced = e.unplaced :=
  ⟨fun _ _ => parse_wellFormed, fun _ => Expr.WellFormed.parse_key⟩

namespace Sample

/-- A formula in whose canonical text `(|>or||<msg[1]|or||mu X,b.(X;|>or)||X)` signs of diamonds follow signs of compositions. -/
def signs : Expr :=
  .par Position.none
    [.diamond Position.none .forward none (Bytes.ofString "or"),
      .diamond Position.none .backward (some (Bytes.ofString "msg[1]")) (Bytes.ofString "or"),
      .fix Position.none true (Bytes.ofString "X") (Bytes.ofString "b")
        (.seq Position.none (.var Position.none (Bytes.ofString "X")) (.diamond Position.none .forward none (Bytes.ofString "or"))),
      .atom Position.none (Bytes.ofString "X") none]

theorem signs_wellFormed : signs.WellFormed [] := by
  have hor : IsName (Bytes.ofString "or") := ⟨_, none, clean_of_check (by decide +kernel) nofun, rfl⟩
  have hb : IsName (Bytes.ofString "b") := ⟨_, none, clean_of_check (by decide +kernel) nofun, rfl⟩
  have hX : CleanName (Bytes.ofString "X") none := clean_of_check (by decide +kernel) nofun
  have hmsg : CleanName (Bytes.ofString "msg") none := clean_of_check (by decide +kernel) nofun
  have hlabelled : IsName (Bytes.ofString "msg[1]") := by
    refine ⟨Bytes.ofString "msg", some (Bytes.ofString "1"), ⟨hmsg.nonempty, hmsg.identBytes, hmsg.notBinder, ?_⟩, by decide +kernel⟩
    intro a ha
    obtain rfl := Option.some.inj ha
    decide +kernel
  exact ⟨by decide, ⟨nofun, hor⟩, ⟨fun a ha => Option.some.inj ha ▸ hlabelled, hor⟩, ⟨hX, hb, List.mem_cons_self, nofun, hor⟩,
    ⟨hX, fun _ => List.not_mem_nil⟩, trivial⟩

end Sample

/-- The canonical text `(|>or||<msg[1]|or||mu X,b.(X;|>or)||X)` is parsed as the formula that it was written for, which is well-formed. -/
theorem key_parses_back_sample : Sample.signs.WellFormed [] ∧
    ∃ e', parse Sample.signs.key = .ok e' ∧ e'.unplaced = Sample.signs.unplaced ∧ e'.WellFormed [] := by
  obtain ⟨e', hparse, heq⟩ := key_parses_back.2 Sample.signs Sample.signs_wellFormed
  exact ⟨Sample.signs_wellFormed, e', hparse, heq, key_parses_back.1 _ _ hparse⟩

end ModalGraph.Formula
