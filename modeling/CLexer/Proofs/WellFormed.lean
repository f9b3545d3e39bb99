import CLexer.Proofs.Course
import CLexer.Proofs.Grammar

/-!
# Well-formed tokens

What the text of a token of each kind looks like, under given tables and options. The forms are
those of the grammar, and beside them stand the two things a grammar does not know: how long a
lexeme may be, and which kind it has when its characters could belong to more than one. A quote in
the table of operators is still a quote; a `#` that is listed there starts no directive; and a word
is cut off before it is looked up, so that what is looked up is what is kept.

Every token of every scan is well formed. The pieces are gone through one by one, and a scan is made
of them. The converse, that a well-formed text is read as it stands, is the subject of another file.
-/

set_option autoImplicit false

namespace CLexer

open CLexer.Text CLexer.Lexeme

/-! ## The forms -/

/-- A word, no longer than what is kept of one. -/
structure IsWord (options : Options) (text : String) : Prop where
  shape : ∃ c more, text.toList = c :: more ∧ isWordStart c = true ∧
    ∀ d ∈ more, isWordChar d = true
  length_le : text.toList.length ≤ options.wordLimit

/-- A punctuation character that starts neither a word nor a literal. -/
structure IsSymbol (c : Char) : Prop where
  punctuation : isPunctuation c = true
  not_wordStart : isWordStart c = false
  not_literalStart : isLiteralStart c = false

/-- No longer than a literal or number may be. -/
def WithinLimit (options : Options) (text : String) : Prop :=
  ∀ l ∈ options.lexemeLimit, text.toList.length ≤ l

/-- Units in quotes, no longer than a literal may be. -/
structure IsQuoted (options : Options) (quote : Char) (units : List LiteralUnit) (text : String) :
    Prop where
  shape : text.toList = quote :: (unitsText units ++ [quote])
  fits : ∀ u ∈ units, u.Fits quote
  within : WithinLimit options text

/-- Does a token of this kind look like this? -/
def WellFormed (tables : Tables) (options : Options) (text : String) : TokenKind → Prop
  | .keyword => IsWord options text ∧ text ∈ tables.keywords ∧ text ≠ Scan.sizeofWord
  | .identifier => IsWord options text ∧ text ∉ tables.keywords ∧ text ≠ Scan.sizeofWord
  | .operator =>
      (IsWord options text ∧ text = Scan.sizeofWord) ∨
        ∃ c more, text.toList = c :: more ∧ IsSymbol c ∧ c ∈ tables.operators ∧ Continues [c] more
  | .delimiter => ∃ c, text.toList = [c] ∧ IsSymbol c ∧ c ∈ tables.delimiters
  | .numericConstant => Numeral text.toList ∧ WithinLimit options text
  | .charConstant =>
      ∃ units, IsQuoted options apostrophe units text ∧ units ≠ [] ∧
        (options.keepMultichar = false → units.length = 1)
  | .stringConstant => ∃ units, IsQuoted options doubleQuote units text
  | .directive =>
      text ∈ tables.directives ∧ text.toList.length ≤ options.wordLimit ∧
        (∃ name, text.toList = '#' :: name ∧ name ≠ [] ∧ ∀ c ∈ name, c.isAlpha = true) ∧
        '#' ∉ tables.operators ∧ '#' ∉ tables.delimiters
  | .specialSymbol =>
      ∃ c, IsSymbol c ∧ c ∉ tables.operators ∧ c ∉ tables.delimiters ∧
        (text.toList = [c] ∧ c ≠ '#' ∨ text.toList = ['.', '.', '.'] ∧ c = '.')

/-! ## Tables and limits -/

variable {tables : Tables} {options : Options}

theorem Tables.isKeyword_iff {word : String} :
    tables.isKeyword word = true ↔ word ∈ tables.keywords :=
  List.contains_iff_mem

theorem Tables.isOperator_iff {c : Char} : tables.isOperator c = true ↔ c ∈ tables.operators :=
  List.contains_iff_mem

theorem Tables.isDelimiter_iff {c : Char} : tables.isDelimiter c = true ↔ c ∈ tables.delimiters :=
  List.contains_iff_mem

/-- In an increasing list, what is listed stands right behind all that is smaller. -/
theorem head?_dropWhile_lt {words : List String} (h : words.Pairwise (· < ·)) {text : String} :
    (words.dropWhile (· < text)).head? = some text ↔ text ∈ words := by
  induction words with
  | nil => simp
  | cons w words ih =>
    obtain ⟨hw, hwords⟩ := List.pairwise_cons.mp h
    by_cases hlt : w < text
    · have hne : text ≠ w := fun heq => String.lt_irrefl w (heq ▸ hlt)
      rw [List.dropWhile_cons_of_pos (by simpa using hlt), ih hwords, List.mem_cons,
        or_iff_right hne]
    · rw [List.dropWhile_cons_of_neg (by simpa using hlt), List.head?_cons, Option.some_inj,
        List.mem_cons]
      exact ⟨fun heq => .inl heq.symm,
        fun hmem => hmem.elim Eq.symm fun hmore => absurd (hw text hmore) hlt⟩

/-- A directive is found if it is listed, and not otherwise. -/
theorem Tables.lookUp_eq_found_iff {text : String} :
    tables.lookUp text = .found ↔ text ∈ tables.directives := by
  rw [← head?_dropWhile_lt tables.directives_increase]
  unfold Tables.lookUp Tables.lookUpDirective
  generalize (tables.directives.dropWhile (· < text)).head? = above
  generalize (tables.directives.takeWhile (· < text)).getLast? = below
  cases above with
  | none => cases below <;> simp
  | some a =>
    by_cases ha : a = text
    · cases below <;> simp [ha]
    · cases below
      · simp [ha]
      · simp only [ha, if_false, Option.some_inj, iff_false]
        split <;> exact fun h => by cases h

theorem Piece.fits_iff {text : String} :
    Piece.fits options text.toList.length = true ↔ WithinLimit options text := by
  unfold Piece.fits WithinLimit
  cases options.lexemeLimit <;> simp

/-! ## Every piece -/

/-- Is each of the tokens of a piece well formed? -/
def Piece.Forms (tables : Tables) (options : Options) (p : Piece) : Prop :=
  ∀ k ∈ p.cuts, WellFormed tables options (String.ofList k.chars) k.kind

theorem Piece.forms_of_nil {p : Piece} (h : p.cuts = []) : p.Forms tables options := by
  intro k hk
  rw [h] at hk
  cases hk

theorem Piece.forms_of_single {p : Piece} {k : Cut} (h : p.cuts = [k])
    (hk : WellFormed tables options (String.ofList k.chars) k.kind) : p.Forms tables options := by
  intro k' hk'
  rw [h] at hk'
  rw [List.mem_singleton.mp hk']
  exact hk

/-- What a word is called is what it looks like. -/
theorem wellFormed_wordKind {text : String} (h : IsWord options text) :
    WellFormed tables options text (Scan.wordKind tables text) := by
  unfold Scan.wordKind
  split
  · exact .inl ⟨h, by assumption⟩
  · split
    · rename_i hsizeof hlisted
      exact ⟨h, Tables.isKeyword_iff.mp hlisted, hsizeof⟩
    · rename_i hsizeof hlisted
      exact ⟨h, mt Tables.isKeyword_iff.mpr hlisted, hsizeof⟩

theorem Piece.forms_word {c : Char} (hc : isWordStart c = true) (rest : List Char) :
    (Piece.word tables options c rest).Forms tables options := by
  refine Piece.forms_of_single rfl (wellFormed_wordKind ⟨⟨c, _, String.toList_ofList, hc, ?_⟩, ?_⟩)
  · intro d hd
    exact List.mem_takeWhile_imp (List.mem_of_mem_take hd)
  · have hpos := options.wordLimit_pos
    simp only [Cut.chars, String.toList_ofList, List.length_cons, List.length_take]
    omega

theorem Piece.forms_number {c : Char} (hc : c.isDigit = true) (rest : List Char) :
    (Piece.number options c rest).Forms tables options := by
  unfold Piece.number
  dsimp only
  split
  · rename_i hfits
    split
    · rename_i hcomplete
      have hnumeral := numeral_of_complete hc hcomplete
      obtain ⟨more, hlexeme, -⟩ := number_eq_cons hc rest
      rw [hlexeme] at hnumeral hfits
      refine Piece.forms_of_single rfl ?_
      rw [hlexeme, List.tail_cons]
      show Numeral (String.ofList (c :: more)).toList ∧
        WithinLimit options (String.ofList (c :: more))
      rw [← Piece.fits_iff, String.toList_ofList]
      exact ⟨hnumeral, hfits⟩
    · exact Piece.forms_of_nil rfl
  · exact Piece.forms_of_nil rfl

/-- A literal is well formed if what becomes of it is, once it is closed and fits. -/
theorem Piece.forms_literal {quote : Char} (rest : List Char)
    {closed : List Char → List Cut × List Remark}
    (h : ∀ units, IsQuoted options quote units
        (String.ofList (quote :: (unitsText units ++ [quote]))) →
      Piece.Forms tables options ⟨[], (closed (unitsText units)).1, []⟩) :
    (Piece.literal options quote rest closed).Forms tables options := by
  by_cases hclosed : (literalBody quote rest).ending = .closed
  · rw [Piece.literal_of_closed closed hclosed]
    split
    · rename_i hfits
      refine h (literalBody quote rest).units ⟨String.toList_ofList, fits_of_mem_literalBody, ?_⟩
      rw [← Piece.fits_iff, String.toList_ofList]
      simpa [unitsText, LiteralBody.text, Nat.add_assoc] using hfits
    · exact Piece.forms_of_nil rfl
  · rw [Piece.literal_of_open closed hclosed]
    exact Piece.forms_of_nil rfl

theorem Piece.forms_closedString (units : List LiteralUnit)
    (h : IsQuoted options doubleQuote units
      (String.ofList (doubleQuote :: (unitsText units ++ [doubleQuote])))) :
    Piece.Forms tables options ⟨[], (Piece.closedString (unitsText units)).1, []⟩ :=
  Piece.forms_of_single rfl ⟨units, h⟩

theorem Piece.forms_closedChar (units : List LiteralUnit)
    (h : IsQuoted options apostrophe units
      (String.ofList (apostrophe :: (unitsText units ++ [apostrophe])))) :
    Piece.Forms tables options ⟨[], (Piece.closedChar options (unitsText units)).1, []⟩ := by
  unfold Piece.closedChar
  dsimp only
  split
  · exact Piece.forms_of_nil rfl
  · rename_i hsome
    have hunits : units ≠ [] := fun hnone => hsome (unitsText_eq_nil_iff.mpr hnone)
    have hmulti := isMultichar_iff h.fits
    split
    · split
      · rename_i hkeep
        refine Piece.forms_of_single rfl ⟨units, h, hunits, fun hdrop => ?_⟩
        rw [hkeep] at hdrop
        cases hdrop
      · exact Piece.forms_of_nil rfl
    · rename_i hsingle
      refine Piece.forms_of_single rfl ⟨units, h, hunits, fun _ => ?_⟩
      have hle := mt hmulti.mpr hsingle
      have hpos := List.length_pos_iff.mpr hunits
      omega

theorem Piece.forms_operator {c : Char} (hc : IsSymbol c) (hlisted : c ∈ tables.operators)
    (rest : List Char) : (Piece.operator c rest).Forms tables options := by
  have hplain : (Piece.plainOperator c rest).Forms tables options :=
    Piece.forms_of_single rfl
      (.inr ⟨c, _, String.toList_ofList, hc, hlisted, continues_operatorTail [c] rest⟩)
  unfold Piece.operator
  split
  · split
    · unfold Piece.comment
      split
      · exact Piece.forms_of_nil rfl
      · split <;> exact Piece.forms_of_nil rfl
    · exact hplain
  · exact hplain

theorem Piece.forms_directive (hoperator : '#' ∉ tables.operators)
    (hdelimiter : '#' ∉ tables.delimiters) (rest : List Char) :
    (Piece.directive tables options rest).Forms tables options := by
  unfold Piece.directive
  dsimp only
  split
  · rename_i hfound
    have hlisted := Tables.lookUp_eq_found_iff.mp hfound
    refine Piece.forms_of_single rfl
      ⟨hlisted, ?_, ⟨_, String.toList_ofList, ?_, ?_⟩, hoperator, hdelimiter⟩
    · have hpos := options.wordLimit_pos
      simp only [Cut.chars, String.toList_ofList, List.length_cons, List.length_take]
      omega
    · -- A listed directive is more than its `#`.
      intro hnone
      have hnamed := tables.directives_named _ hlisted
      dsimp only at hnone
      rw [hnone] at hnamed
      cases hnamed
    · intro c hc
      exact List.mem_takeWhile_imp (List.mem_of_mem_take hc)
  · exact Piece.forms_of_nil rfl

theorem Piece.forms_dots (hoperator : '.' ∉ tables.operators) (hdelimiter : '.' ∉ tables.delimiters)
    (rest : List Char) : (Piece.dots rest).Forms tables options := by
  have hsymbol : IsSymbol '.' := ⟨by decide, by decide, by decide⟩
  have hdot : WellFormed tables options (String.ofList Cut.dot.chars) Cut.dot.kind :=
    ⟨'.', hsymbol, hoperator, hdelimiter, .inl ⟨String.toList_ofList, by decide⟩⟩
  have hpair : ∀ k ∈ [Cut.dot, Cut.dot],
      WellFormed tables options (String.ofList k.chars) k.kind := by
    simpa using hdot
  unfold Piece.dots
  split
  · exact Piece.forms_of_single rfl
      ⟨'.', hsymbol, hoperator, hdelimiter, .inr ⟨String.toList_ofList, rfl⟩⟩
  · exact hpair
  · exact hpair
  · exact Piece.forms_of_single rfl hdot
  · exact Piece.forms_of_single rfl hdot

theorem Piece.forms_punctuation {c : Char} (hc : IsSymbol c) (rest : List Char) :
    (Piece.punctuation tables options c rest).Forms tables options := by
  unfold Piece.punctuation
  split
  · rename_i hlisted
    exact Piece.forms_operator hc (Tables.isOperator_iff.mp hlisted) rest
  · rename_i hop
    have hoperator : c ∉ tables.operators := mt Tables.isOperator_iff.mpr hop
    split
    · rename_i hlisted
      exact Piece.forms_of_single rfl
        ⟨c, String.toList_ofList, hc, Tables.isDelimiter_iff.mp hlisted⟩
    · rename_i hdel
      have hdelimiter : c ∉ tables.delimiters := mt Tables.isDelimiter_iff.mpr hdel
      split
      · rename_i hash
        subst hash
        exact Piece.forms_directive hoperator hdelimiter rest
      · rename_i hash
        split
        · rename_i hdot
          subst hdot
          exact Piece.forms_dots hoperator hdelimiter rest
        · exact Piece.forms_of_single rfl
            ⟨c, hc, hoperator, hdelimiter, .inl ⟨String.toList_ofList, hash⟩⟩

/-- **Every token of every piece is well formed.** -/
theorem Piece.forms_of (c : Char) (rest : List Char) :
    (Piece.of tables options c rest).Forms tables options := by
  unfold Piece.of
  split
  · exact Piece.forms_of_nil rfl
  · unfold Piece.lexeme
    split
    · rename_i hliteral
      split
      · exact Piece.forms_literal rest Piece.forms_closedChar
      · rename_i hapostrophe
        split
        · exact Piece.forms_literal rest Piece.forms_closedString
        · rename_i hquote
          have hdigit : c.isDigit = true := by
            simpa [isLiteralStart, hapostrophe, hquote] using hliteral
          exact Piece.forms_number hdigit rest
    · rename_i hliteral
      split
      · exact Piece.forms_word (by assumption) rest
      · rename_i hword
        split
        · exact Piece.forms_punctuation
            ⟨by assumption, by simpa using hword, by simpa using hliteral⟩ rest
        · exact Piece.forms_of_nil rfl

/-! ## Every scan -/

theorem Piece.forms_tokens {p : Piece} (h : p.Forms tables options) (start : Position) :
    ∀ t ∈ p.tokens start, WellFormed tables options t.text t.kind := by
  unfold Piece.tokens
  unfold Piece.Forms at h
  generalize p.cuts = ks at h
  induction ks generalizing start with
  | nil => exact fun t ht => by cases ht
  | cons k ks ih =>
    intro t ht
    rcases List.mem_cons.mp ht with rfl | ht
    · exact h k List.mem_cons_self
    · exact ih _ (fun k' hk' => h k' (List.mem_cons_of_mem k hk')) t ht

theorem wellFormed_of_mem_outputOf (before text : List Char) :
    ∀ t ∈ (outputOf tables options before text).1, WellFormed tables options t.text t.kind := by
  induction before, text using pieces_induction tables options with
  | nil before =>
    intro t ht
    rw [outputOf_nil] at ht
    cases ht
  | cons before c rest ih =>
    intro t ht
    rw [outputOf_cons] at ht
    rcases List.mem_append.mp ht with ht | ht
    · exact Piece.forms_tokens (Piece.forms_of c rest) _ t ht
    · exact ih t ht

/-- **Every token is well formed for its kind.** Whatever the text, the tables, the options and the
sinks, and also when a scan breaks off. -/
theorem tokens_wellFormed (input : Input) (tables : Tables) (options : Options) (chain : Chain)
    (source : String) (t : Token) (h : t ∈ (scanInput input tables options chain source).tokens) :
    WellFormed tables options t.text t.kind :=
  wellFormed_of_mem_outputOf [] input.chars t
    ((tokens_isPrefix input tables options chain source).mem h)

/-- Of `doing` two characters are kept, and they are looked up. -/
theorem tokens_wellFormed_of_doing :
    let options : Options := { wordLimit := 2 }
    let report := scanInput ⟨"doing".toList, none⟩ Tables.standard options [] "a.c"
    let t : Token := ⟨.keyword, "do", ⟨1, 1⟩, by decide⟩
    t ∈ report.tokens ∧ WellFormed Tables.standard options t.text t.kind := by
  intro options report t
  have h : t ∈ report.tokens := by decide +kernel
  exact ⟨h, tokens_wellFormed _ _ _ _ _ t h⟩

end CLexer
