import CLexer.Proofs.Separation
import CLexer.Proofs.WellFormed

/-!
# Scanning again

The tokens of a scan, written one after the other with blanks between them, are scanned as the same
tokens, and nothing is said of them but what has to be said of a character constant with several
characters. It does not matter which blanks these are or how many, as long as there is one between
any two tokens.

The argument is about one lexeme: a text that is well formed for a kind, with a blank or nothing
behind it, is read as a token of that kind, and what is taken besides is a line feed at most
(`Piece.rereads_of`). Nothing else about the first scan is used, so the tokens could come from
anywhere.
-/

set_option autoImplicit false

namespace CLexer

open CLexer.Text CLexer.Lexeme

/-- Is this a character constant with more than one unit between its quotes? -/
def Token.isMultichar (t : Token) : Bool :=
  t.kind = .charConstant && decide (1 < (literalBody apostrophe t.text.toList.tail).units.length)

/-- What is said of a character constant with several units. -/
def Remark.multichar : Remark := ⟨.warning, "multi-character character constant"⟩

def multicharWarning (t : Token) : Diagnostic := Remark.multichar.diagnostic t.position

/-- Tokens as a text, with the given characters around and between them. -/
def respaced (w : Nat → List Char) : List Token → List Char
  | [] => w 0
  | t :: ts => w 0 ++ (t.text.toList ++ respaced (fun i => w (i + 1)) ts)

variable {tables : Tables} {options : Options} {k : Cut} {behind : List Char}

/-! ## One lexeme -/

/-- The piece is the lexeme `k`, and takes a line feed behind it at most. -/
structure Piece.Rereads (p : Piece) (k : Cut) (behind : List Char) : Prop where
  cuts : p.cuts = [k]
  remarks : ∀ start, p.remarks = if (k.token start).isMultichar then [.multichar] else []
  more : p.more = k.more ∨ p.more = k.more ++ Piece.glanced behind

/-- What is no character constant has nothing said of it. -/
theorem Piece.Rereads.of_kind {p : Piece} {kind : TokenKind} (hkind : k.kind = kind)
    (hne : kind ≠ .charConstant) (hcuts : p.cuts = [k]) (hremarks : p.remarks = [])
    (hmore : p.more = k.more ∨ p.more = k.more ++ Piece.glanced behind) : p.Rereads k behind := by
  refine ⟨hcuts, fun start => ?_, hmore⟩
  have hplain : (k.token start).isMultichar = false := by
    simp [Token.isMultichar, Cut.token, hkind, hne]
  rw [hremarks, hplain]
  rfl

/-! ### Which rule applies -/

theorem not_isPunctuation_of_isBlank (c : Char) (hc : isBlank c = true) :
    isPunctuation c = false :=
  forall_isBlank (p := fun c => isPunctuation c = false) (by decide) hc

theorem not_isLiteralStart_of_isWordStart {c : Char} (h : isWordStart c = true) :
    isLiteralStart c = false := by
  by_contra hliteral
  simp only [isLiteralStart, Bool.not_eq_false, Bool.or_eq_true, beq_iff_eq] at hliteral
  rcases hliteral with (hdigit | rfl) | rfl
  · -- The codes of digits lie below those of letters.
    have hcode : c.val ≤ 57 := of_decide_eq_true (Bool.and_eq_true_iff.mp hdigit).2
    have hletter : 57 < c.val := by
      rcases Bool.or_eq_true_iff.mp h with halpha | hunderscore
      · rcases Bool.or_eq_true_iff.mp halpha with hupper | hlower
        · exact UInt32.lt_of_lt_of_le (by decide) (of_decide_eq_true hupper).1
        · exact UInt32.lt_of_lt_of_le (by decide)
            (of_decide_eq_true (Bool.and_eq_true_iff.mp hlower).1)
      · rw [eq_of_beq hunderscore]
        decide
    exact absurd hcode (UInt32.not_le.mpr hletter)
  · revert h
    decide
  · revert h
    decide

/-- A word is read by the rule for words. -/
theorem Piece.of_wordStart {c : Char} (h : isWordStart c = true) (rest : List Char) :
    Piece.of tables options c rest = Piece.word tables options c rest := by
  have hblank := not_isBlank_of not_isWordChar_of_isBlank (isWordChar_of_isWordStart h)
  have hliteral := not_isLiteralStart_of_isWordStart h
  simp [Piece.of, Piece.lexeme, hblank, hliteral, h]

theorem Piece.of_symbol {c : Char} (h : IsSymbol c) (rest : List Char) :
    Piece.of tables options c rest = Piece.punctuation tables options c rest := by
  have hblank := not_isBlank_of not_isPunctuation_of_isBlank h.punctuation
  simp [Piece.of, Piece.lexeme, hblank, h.not_literalStart, h.not_wordStart, h.punctuation]

theorem Piece.of_digit {c : Char} (h : c.isDigit = true) (rest : List Char) :
    Piece.of tables options c rest = Piece.number options c rest := by
  have hblank := not_isBlank_of (not_isDigit_of_isBlank .decimal) h
  have hapostrophe : c ≠ apostrophe := by
    rintro rfl
    revert h
    decide
  have hquote : c ≠ doubleQuote := by
    rintro rfl
    revert h
    decide
  simp [Piece.of, Piece.lexeme, isLiteralStart, hblank, h, hapostrophe, hquote]

/-! ### Each kind -/

/-- What is within the limit is kept as a whole. -/
theorem take_of_chars_le {limit : Nat} (h : k.chars.length ≤ limit) :
    k.more.take (limit - 1) = k.more := by
  refine List.take_of_length_le ?_
  rw [Cut.chars, List.length_cons] at h
  omega

theorem Piece.rereads_word (h : IsWord options (String.ofList k.chars))
    (hkind : Scan.wordKind tables (String.ofList k.chars) = k.kind) (hsep : Separated behind) :
    (Piece.of tables options k.first (k.more ++ behind)).Rereads k behind := by
  obtain ⟨⟨c, more, hchars, hstart, hmore⟩, hlength⟩ := h
  rw [String.toList_ofList] at hchars hlength
  obtain ⟨hc, hmore'⟩ := List.cons.inj hchars
  subst hc hmore'
  have hword : Lexeme.word (k.more ++ behind) = k.more := by
    rw [word_separated hsep]
    exact List.takeWhile_eq_self_iff.mpr hmore
  rw [Piece.of_wordStart hstart]
  unfold Piece.word
  dsimp only
  rw [hword, take_of_chars_le hlength, List.drop_left]
  refine .of_kind hkind.symm ?_ ?_ rfl (.inr rfl)
  · unfold Scan.wordKind
    split
    · exact fun h => by cases h
    · split <;> exact fun h => by cases h
  · rw [show String.ofList (k.first :: k.more) = String.ofList k.chars from rfl, hkind]

theorem Piece.rereads_number (h : Numeral k.chars)
    (hfits : Piece.fits options k.chars.length = true) (hkind : k.kind = .numericConstant)
    (hsep : Separated behind) :
    (Piece.of tables options k.first (k.more ++ behind)).Rereads k behind := by
  have hread : Lexeme.number (k.first :: (k.more ++ behind)) = ⟨k.chars, true⟩ := by
    rw [← List.cons_append, number_separated hsep]
    exact number_of_numeral h
  rw [Piece.of_digit (h.isDigit_first rfl)]
  unfold Piece.number
  dsimp only
  rw [hread, if_pos hfits, if_pos rfl]
  refine .of_kind hkind (by decide) ?_ rfl (.inr ?_)
  · rw [← hkind]
    rfl
  · exact congrArg (k.more ++ Piece.glanced ·) List.drop_left

/-- A literal ends with its closing quote, whatever follows. -/
theorem Piece.literal_of_quoted {quote : Char} (hquote : quote ≠ '\\') {units : List LiteralUnit}
    (h : IsQuoted options quote units (String.ofList k.chars)) (behind : List Char)
    (closed : List Char → List Cut × List Remark) :
    Piece.literal options quote (k.more ++ behind) closed =
      ⟨k.more, (closed (unitsText units)).1, (closed (unitsText units)).2⟩ := by
  obtain ⟨hshape, hunits, hwithin⟩ := h
  have hfits := Piece.fits_iff.mpr hwithin
  rw [String.toList_ofList] at hshape hfits
  have hmore : k.more = unitsText units ++ [quote] := (List.cons.inj hshape).2
  have hbody : literalBody quote (k.more ++ behind) = ⟨units, .closed⟩ := by
    rw [hmore, List.append_assoc]
    exact literalBody_of_units hquote hunits behind
  have htext : (LiteralBody.mk units .closed).text = unitsText units := rfl
  have hlength : k.chars.length = (unitsText units).length + 2 := by
    rw [hshape]
    simp
  have htake : (k.more ++ behind).take (LiteralBody.mk units .closed).width = k.more := by
    rw [LiteralBody.width, htext, hmore]
    exact List.take_left' (by simp [LiteralEnd.width])
  rw [Piece.literal_of_closed closed (by rw [hbody]), hbody, htext, ← hlength, if_pos hfits, htake]

theorem Piece.rereads_string {units : List LiteralUnit}
    (h : IsQuoted options doubleQuote units (String.ofList k.chars))
    (hkind : k.kind = .stringConstant) :
    (Piece.of tables options k.first (k.more ++ behind)).Rereads k behind := by
  have hshape := h.shape
  rw [String.toList_ofList] at hshape
  obtain ⟨hfirst, hmore⟩ := List.cons.inj hshape
  have hof : Piece.of tables options k.first (k.more ++ behind) =
      Piece.literal options doubleQuote (k.more ++ behind) Piece.closedString := by
    rw [hfirst]
    rfl
  rw [hof, Piece.literal_of_quoted (by decide) h]
  refine .of_kind hkind (by decide) ?_ rfl (.inl rfl)
  rw [Piece.closedString, ← hmore, ← hfirst, ← hkind]

theorem isMultichar_token {units : List LiteralUnit}
    (h : IsQuoted options apostrophe units (String.ofList k.chars)) (hkind : k.kind = .charConstant)
    (start : Position) : (k.token start).isMultichar = decide (1 < units.length) := by
  have hbody := literalBody_of_units (by decide) h.fits []
  have htail : (k.token start).text.toList.tail = unitsText units ++ [apostrophe] := by
    show (String.ofList k.chars).toList.tail = _
    rw [h.shape, List.tail_cons]
  rw [Token.isMultichar, htail, hbody]
  simp [Cut.token, hkind]

theorem Piece.rereads_char {units : List LiteralUnit}
    (h : IsQuoted options apostrophe units (String.ofList k.chars)) (hsome : units ≠ [])
    (hsingle : options.keepMultichar = false → units.length = 1) (hkind : k.kind = .charConstant) :
    (Piece.of tables options k.first (k.more ++ behind)).Rereads k behind := by
  have hshape := h.shape
  rw [String.toList_ofList] at hshape
  obtain ⟨hfirst, hmore⟩ := List.cons.inj hshape
  have hof : Piece.of tables options k.first (k.more ++ behind) =
      Piece.literal options apostrophe (k.more ++ behind) (Piece.closedChar options) := by
    rw [hfirst]
    rfl
  have hcut : (⟨.charConstant, apostrophe, unitsText units ++ [apostrophe]⟩ : Cut) = k := by
    rw [← hmore, ← hfirst, ← hkind]
  have hmulti := isMultichar_iff h.fits
  have htoken := isMultichar_token h hkind
  have hinside : unitsText units ≠ [] := mt unitsText_eq_nil_iff.mp hsome
  rw [hof, Piece.literal_of_quoted (by decide) h]
  unfold Piece.closedChar
  dsimp only
  rw [if_neg hinside, hcut]
  by_cases hmany : 1 < units.length
  · have hkeep : options.keepMultichar = true := by
      by_contra hdrop
      have := hsingle (by simpa using hdrop)
      omega
    rw [if_pos (by rw [hshape]; exact hmulti.mpr hmany), hkeep, if_pos rfl]
    exact ⟨rfl, fun start => by rw [htoken, decide_eq_true hmany]; rfl, .inl rfl⟩
  · rw [if_neg (by rw [hshape]; exact mt hmulti.mp hmany)]
    exact ⟨rfl, fun start => by rw [htoken, decide_eq_false hmany]; rfl, .inl rfl⟩

/-- A slash that is an operator starts no comment. -/
theorem not_comment_of_continues {c d : Char} {more rest : List Char} (h : Continues [c] more)
    (hsep : Separated behind) (htext : more ++ behind = d :: rest) :
    ¬ (c = '/' ∧ (d = '/' ∨ d = '*')) := by
  rintro ⟨rfl, hd⟩
  cases h with
  | nil =>
    have hblank := hsep d (congrArg List.head? htext)
    rcases hd with rfl | rfl <;> exact absurd hblank (by decide)
  | cons hc =>
    obtain ⟨rfl, -⟩ := List.cons.inj htext
    rcases hd with rfl | rfl <;> exact absurd hc (by decide)

theorem Piece.rereads_operator (hsymbol : IsSymbol k.first) (hlisted : k.first ∈ tables.operators)
    (h : Continues [k.first] k.more) (hkind : k.kind = .operator) (hsep : Separated behind) :
    (Piece.of tables options k.first (k.more ++ behind)).Rereads k behind := by
  have htail : operatorTail [k.first] (k.more ++ behind) = k.more := by
    rw [operatorTail_separated hsep, operatorTail_of_continues h]
  have hplain : Piece.operator k.first (k.more ++ behind) =
      Piece.plainOperator k.first (k.more ++ behind) := by
    unfold Piece.operator
    split
    · rename_i htext
      exact if_neg (not_comment_of_continues h hsep htext)
    · rfl
  rw [Piece.of_symbol hsymbol, Piece.punctuation, if_pos (Tables.isOperator_iff.mpr hlisted),
    hplain]
  unfold Piece.plainOperator
  dsimp only
  rw [htail, List.drop_left]
  refine .of_kind hkind (by decide) ?_ rfl (.inr rfl)
  rw [← hkind]

theorem Piece.rereads_delimiter (hsymbol : IsSymbol k.first) (hlisted : k.first ∈ tables.delimiters)
    (hmore : k.more = []) (hkind : k.kind = .delimiter) :
    (Piece.of tables options k.first (k.more ++ behind)).Rereads k behind := by
  have hoperator : ¬ tables.isOperator k.first = true := fun h =>
    tables.operators_disjoint k.first (Tables.isOperator_iff.mp h) hlisted
  rw [Piece.of_symbol hsymbol, Piece.punctuation, if_neg hoperator,
    if_pos (Tables.isDelimiter_iff.mpr hlisted)]
  refine .of_kind hkind (by decide) ?_ rfl (.inl hmore.symm)
  rw [← hkind, ← hmore]

/-- What is in neither table is read by the rules for `#`, for dots and for the rest. -/
theorem Piece.punctuation_of_unlisted {c : Char} (hoperator : c ∉ tables.operators)
    (hdelimiter : c ∉ tables.delimiters) (rest : List Char) :
    Piece.punctuation tables options c rest =
      if c = '#' then Piece.directive tables options rest
      else if c = '.' then Piece.dots rest
      else { cuts := [⟨.specialSymbol, c, []⟩] } := by
  rw [Piece.punctuation, if_neg (mt Tables.isOperator_iff.mp hoperator),
    if_neg (mt Tables.isDelimiter_iff.mp hdelimiter)]

theorem Piece.rereads_directive (hfirst : k.first = '#') (hoperator : '#' ∉ tables.operators)
    (hdelimiter : '#' ∉ tables.delimiters) (hletters : ∀ c ∈ k.more, c.isAlpha = true)
    (hlength : k.chars.length ≤ options.wordLimit)
    (hlisted : String.ofList k.chars ∈ tables.directives) (hkind : k.kind = .directive)
    (hsep : Separated behind) :
    (Piece.of tables options k.first (k.more ++ behind)).Rereads k behind := by
  have hwhole : letters (k.more ++ behind) = k.more := by
    rw [letters_separated hsep]
    exact List.takeWhile_eq_self_iff.mpr hletters
  have hfound : tables.lookUp (String.ofList ('#' :: k.more)) = .found := by
    rw [← hfirst]
    exact Tables.lookUp_eq_found_iff.mpr hlisted
  rw [hfirst, Piece.of_symbol ⟨by decide, by decide, by decide⟩,
    Piece.punctuation_of_unlisted hoperator hdelimiter, if_pos rfl]
  unfold Piece.directive
  dsimp only
  rw [hwhole, take_of_chars_le hlength, hfound, List.drop_left]
  refine .of_kind hkind (by decide) ?_ rfl (.inr rfl)
  rw [← hfirst, ← hkind]

theorem Piece.rereads_special (hsymbol : IsSymbol k.first) (hoperator : k.first ∉ tables.operators)
    (hdelimiter : k.first ∉ tables.delimiters) (hfirst : k.first ≠ '#') (hmore : k.more = [])
    (hkind : k.kind = .specialSymbol) (hsep : Separated behind) :
    (Piece.of tables options k.first (k.more ++ behind)).Rereads k behind := by
  rw [Piece.of_symbol hsymbol, Piece.punctuation_of_unlisted hoperator hdelimiter, if_neg hfirst,
    hmore, List.nil_append]
  split
  · rename_i hdot
    -- A blank behind a dot is no second dot.
    have hbehind : Piece.dots behind = { more := Piece.glanced behind, cuts := [.dot] } := by
      unfold Piece.dots
      split
      all_goals first | rfl | exact absurd (hsep '.' rfl) (by decide)
    rw [hbehind]
    refine .of_kind hkind (by decide) ?_ rfl (.inr (by rw [hmore]; rfl))
    rw [Cut.dot, ← hdot, ← hkind, ← hmore]
  · refine .of_kind hkind (by decide) ?_ rfl (.inl hmore.symm)
    rw [← hkind, ← hmore]

theorem Piece.rereads_ellipsis (hchars : k.chars = ['.', '.', '.'])
    (hoperator : '.' ∉ tables.operators) (hdelimiter : '.' ∉ tables.delimiters)
    (hkind : k.kind = .specialSymbol) :
    (Piece.of tables options k.first (k.more ++ behind)).Rereads k behind := by
  obtain ⟨hfirst, hmore⟩ := List.cons.inj hchars
  rw [hfirst, hmore, Piece.of_symbol ⟨by decide, by decide, by decide⟩,
    Piece.punctuation_of_unlisted hoperator hdelimiter]
  refine .of_kind hkind (by decide) ?_ rfl (.inl hmore.symm)
  show [(⟨.specialSymbol, '.', ['.', '.']⟩ : Cut)] = [k]
  rw [← hmore, ← hfirst, ← hkind]

/-- **A well-formed lexeme is read as what it is**, with a blank or nothing behind it. -/
theorem Piece.rereads_of (h : WellFormed tables options (String.ofList k.chars) k.kind)
    (hsep : Separated behind) :
    (Piece.of tables options k.first (k.more ++ behind)).Rereads k behind := by
  cases hkind : k.kind with
  | keyword =>
    rw [hkind] at h
    obtain ⟨hword, hlisted, hsizeof⟩ := h
    refine Piece.rereads_word hword ?_ hsep
    rw [Scan.wordKind, if_neg hsizeof, if_pos (Tables.isKeyword_iff.mpr hlisted), hkind]
  | identifier =>
    rw [hkind] at h
    obtain ⟨hword, hunlisted, hsizeof⟩ := h
    refine Piece.rereads_word hword ?_ hsep
    rw [Scan.wordKind, if_neg hsizeof, if_neg (mt Tables.isKeyword_iff.mp hunlisted), hkind]
  | operator =>
    rw [hkind] at h
    rcases h with ⟨hword, hsizeof⟩ | ⟨c, more, hchars, hsymbol, hlisted, hcontinues⟩
    · refine Piece.rereads_word hword ?_ hsep
      rw [Scan.wordKind, if_pos hsizeof, hkind]
    · obtain ⟨rfl, rfl⟩ := List.cons.inj (String.toList_ofList.symm.trans hchars)
      exact Piece.rereads_operator hsymbol hlisted hcontinues hkind hsep
  | delimiter =>
    rw [hkind] at h
    obtain ⟨c, hchars, hsymbol, hlisted⟩ := h
    obtain ⟨rfl, hmore⟩ := List.cons.inj (String.toList_ofList.symm.trans hchars)
    exact Piece.rereads_delimiter hsymbol hlisted hmore hkind
  | numericConstant =>
    rw [hkind] at h
    obtain ⟨hnumeral, hwithin⟩ := h
    have hfits := Piece.fits_iff.mpr hwithin
    rw [String.toList_ofList] at hnumeral hfits
    exact Piece.rereads_number hnumeral hfits hkind hsep
  | charConstant =>
    rw [hkind] at h
    obtain ⟨units, hquoted, hsome, hsingle⟩ := h
    exact Piece.rereads_char hquoted hsome hsingle hkind
  | stringConstant =>
    rw [hkind] at h
    obtain ⟨units, hquoted⟩ := h
    exact Piece.rereads_string hquoted hkind
  | directive =>
    rw [hkind] at h
    obtain ⟨hlisted, hlength, ⟨name, hchars, -, hletters⟩, hoperator, hdelimiter⟩ := h
    rw [String.toList_ofList] at hchars hlength
    obtain ⟨hfirst, rfl⟩ := List.cons.inj hchars
    exact Piece.rereads_directive hfirst hoperator hdelimiter hletters hlength hlisted hkind hsep
  | specialSymbol =>
    rw [hkind] at h
    obtain ⟨c, hsymbol, hoperator, hdelimiter, ⟨hchars, hc⟩ | ⟨hchars, rfl⟩⟩ := h
    · obtain ⟨rfl, hmore⟩ := List.cons.inj (String.toList_ofList.symm.trans hchars)
      exact Piece.rereads_special hsymbol hoperator hdelimiter hc hmore hkind hsep
    · exact Piece.rereads_ellipsis (String.toList_ofList.symm.trans hchars) hoperator hdelimiter
        hkind

/-! ## The whole text -/

/-- A line feed that was taken with a lexeme would have said nothing if it had not been. -/
theorem outputOf_glanced (before behind : List Char) :
    outputOf tables options (before ++ Piece.glanced behind)
        (behind.drop (Piece.glanced behind).length) =
      outputOf tables options before behind := by
  unfold Piece.glanced
  split
  · exact (outputOf_feed before _).symm
  · rw [List.append_nil]
    rfl

/-- The warning that goes with a token, if one does. -/
def Token.warnings (t : Token) : List Diagnostic :=
  if t.isMultichar then [multicharWarning t] else []

/-- A well-formed lexeme becomes a token, and what is behind it is scanned as it would be anyway. -/
theorem outputOf_lexeme (h : WellFormed tables options (String.ofList k.chars) k.kind)
    (hsep : Separated behind) (before : List Char) :
    let t := k.token (positionAfter before)
    let next := outputOf tables options (before ++ k.chars) behind
    outputOf tables options before (k.chars ++ behind) = (t :: next.1, t.warnings ++ next.2) := by
  intro t next
  have hread := Piece.rereads_of h hsep
  rw [Cut.chars, List.cons_append, outputOf_cons]
  generalize Piece.of tables options k.first (k.more ++ behind) = p at hread
  have htokens : p.tokens (positionAfter before) = [t] := by
    rw [Piece.tokens, hread.cuts]
    rfl
  have hreports : p.diagnostics (positionAfter before) = t.warnings := by
    rw [Piece.diagnostics, hread.remarks (positionAfter before), Token.warnings]
    split <;> rfl
  have hnext : outputOf tables options (before ++ k.first :: p.more)
      ((k.more ++ behind).drop p.more.length) = next := by
    rcases hread.more with hmore | hmore
    · rw [hmore, List.drop_left]
      rfl
    · rw [hmore, List.length_append, ← List.drop_drop, List.drop_left, ← List.cons_append,
        ← List.append_assoc]
      exact outputOf_glanced (before ++ k.chars) behind
  rw [htokens, hreports, hnext]
  rfl

theorem Token.exists_cut (t : Token) : ∃ k : Cut, t = k.token t.position := by
  have hne : t.text.toList ≠ [] := fun h => t.text_ne (String.toList_eq_nil_iff.mp h)
  obtain ⟨c, more, hchars⟩ := List.exists_cons_of_ne_nil hne
  refine ⟨⟨t.kind, c, more⟩, ?_⟩
  have htext : t.text = String.ofList (c :: more) := by rw [← hchars, String.ofList_toList]
  cases t
  cases htext
  rfl

variable {w : Nat → List Char}

/-- With a blank between any two of them, tokens are separated from what follows. -/
theorem separated_respaced {ts : List Token} (hblank : ∀ c ∈ w 0, isBlank c = true)
    (hsome : ts ≠ [] → w 0 ≠ []) : Separated (respaced w ts) := by
  cases hw : w 0 with
  | nil =>
    cases ts with
    | nil =>
      rw [respaced, hw]
      exact separated_nil
    | cons t ts => exact absurd hw (hsome (List.cons_ne_nil t ts))
  | cons b more =>
    rw [hw] at hblank
    have hb := hblank b List.mem_cons_self
    cases ts with
    | nil =>
      rw [respaced, hw]
      exact separated_cons hb more
    | cons t ts =>
      rw [respaced, hw]
      exact separated_cons hb _

/-- **Well-formed tokens with blanks between them are scanned as they are.** -/
theorem outputOf_respaced {ts : List Token}
    (hts : ∀ t ∈ ts, WellFormed tables options t.text t.kind)
    (hblank : ∀ i ≤ ts.length, ∀ c ∈ w i, isBlank c = true)
    (hapart : ∀ i, 0 < i → i < ts.length → w i ≠ []) (before : List Char) :
    let out := outputOf tables options before (respaced w ts)
    out.1.map (fun t => (t.kind, t.text)) = ts.map (fun t => (t.kind, t.text)) ∧
      out.2 = out.1.flatMap Token.warnings := by
  induction ts generalizing w before with
  | nil =>
    have hout : outputOf tables options before (w 0 ++ []) =
        outputOf tables options (before ++ w 0) [] :=
      outputOf_blanks (hblank 0 (Nat.le_refl 0)) before []
    rw [List.append_nil, outputOf_nil] at hout
    rw [respaced, hout]
    exact ⟨rfl, rfl⟩
  | cons t ts ih =>
    rw [List.length_cons] at hblank hapart
    obtain ⟨k, hk⟩ := t.exists_cut
    have hform : WellFormed tables options (String.ofList k.chars) k.kind := by
      have ht := hts t List.mem_cons_self
      rw [hk] at ht
      exact ht
    have hsep : Separated (respaced (fun i => w (i + 1)) ts) := by
      refine separated_respaced (hblank 1 (by omega)) fun hmore => hapart 1 Nat.one_pos ?_
      have := List.length_pos_iff.mpr hmore
      omega
    have hchars : t.text.toList = k.chars := by
      rw [hk]
      exact String.toList_ofList
    obtain ⟨ihtokens, ihreports⟩ := ih (fun t' ht' => hts t' (List.mem_cons_of_mem t ht'))
      (w := fun i => w (i + 1)) (fun i hi => hblank (i + 1) (by omega))
      (fun i hi hlt => hapart (i + 1) (by omega) (by omega)) (before ++ w 0 ++ k.chars)
    rw [respaced, outputOf_blanks (hblank 0 (by omega)), hchars, outputOf_lexeme hform hsep]
    refine ⟨?_, ?_⟩
    · rw [List.map_cons, List.map_cons, ihtokens, hk]
      rfl
    · rw [List.flatMap_cons, ← ihreports]

/-! ## A scan of a scan -/

theorem flatMap_warnings (ts : List Token) :
    ts.flatMap Token.warnings = (ts.filter Token.isMultichar).map multicharWarning := by
  induction ts with
  | nil => rfl
  | cons t ts ih =>
    rw [List.flatMap_cons, ih, Token.warnings]
    by_cases ht : t.isMultichar = true
    · rw [if_pos ht, List.filter_cons_of_pos ht]
      rfl
    · rw [if_neg ht, List.filter_cons_of_neg ht]
      rfl

/-- **Scanning again gives the same tokens.** Take the tokens of a scan and write them down with
blanks around them, and at least one between any two. A scan of that, with the same tables and
options, hands out tokens of the same kinds and texts, and all that it says is one warning for each
character constant with several units. -/
theorem rescan_of_respaced (input : Input) (tables : Tables) (options : Options) (chain : Chain)
    (source source' : String) (verbose : Bool) (w : Nat → List Char) :
    let tokens := (scanInput input tables options chain source).tokens
    (∀ i ≤ tokens.length, ∀ c ∈ w i, isBlank c = true) →
    (∀ i, 0 < i → i < tokens.length → w i ≠ []) →
    let again := scanInput ⟨respaced w tokens, none⟩ tables options [.collector verbose] source'
    again.failure = none ∧
      again.tokens.map (fun t => (t.kind, t.text)) = tokens.map (fun t => (t.kind, t.text)) ∧
      again.kept = (again.tokens.filter Token.isMultichar).map multicharWarning := by
  intro tokens hblank hapart again
  have hforms : ∀ t ∈ tokens, WellFormed tables options t.text t.kind := fun t ht =>
    wellFormed_of_mem_outputOf [] input.chars t
      ((tokens_isPrefix input tables options chain source).mem ht)
  obtain ⟨hsame, hwarnings⟩ := outputOf_respaced hforms hblank hapart []
  obtain ⟨hfailure, htokens, hkept⟩ :=
    scanInput_collector (respaced w tokens) tables options verbose source'
  rw [← htokens] at hsame hwarnings
  refine ⟨hfailure, hsame, ?_⟩
  rw [show again.kept = _ from hkept, hwarnings, flatMap_warnings]
  refine List.filter_eq_self.mpr fun d hd => ?_
  obtain ⟨t, -, rfl⟩ := List.mem_map.mp hd
  -- A warning is no debugging notice, so that any collector takes it.
  exact Bool.or_true verbose

/-- Three tokens, the last of them with a warning, and a line feed in each gap. -/
theorem rescan_of_respaced_with_warning :
    let options : Options := { keepMultichar := true }
    let tokens := (scanInput ⟨"x=\x27ab\x27".toList, none⟩ .standard options [] "a.c").tokens
    let again := scanInput ⟨respaced (fun _ => ['\n']) tokens, none⟩ .standard options
      [.collector true] "b.c"
    tokens.length = 3 ∧ again.failure = none ∧
      again.tokens.map (fun t => (t.kind, t.text)) = tokens.map (fun t => (t.kind, t.text)) ∧
      again.kept = (again.tokens.filter Token.isMultichar).map multicharWarning := by
  intro options tokens again
  have hcount : tokens.length = 3 := by decide +kernel
  have hblank : ∀ i ≤ tokens.length, ∀ c ∈ ['\n'], isBlank c = true := by
    intro i hi c hc
    rw [List.mem_singleton.mp hc]
    rfl
  exact ⟨hcount, rescan_of_respaced _ _ _ _ _ _ _ _ hblank fun _ _ _ => List.cons_ne_nil _ _⟩

end CLexer
