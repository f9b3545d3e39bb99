import CLexer.Proofs.Scan.Literal

/-!
# Punctuation, as it is scanned

Most of these routines read a start of the text and make a token of it. Three do not: a comment is
read and makes nothing, a directive that is not listed is read and reported, and two dots in front of
another character are read and given back. The last is the only place where more than one character
is given back, and why a context has to be able to give back two.
-/

set_option autoImplicit false

namespace CLexer.Scan

open CLexer.Text CLexer.Lexeme

variable {ctx : Context}

/-! ## Comments -/

/-- A line comment takes the rest of its line and the line feed, if there is one. -/
theorem Ends.skipLine (ctx : Context) :
    Ends skipLine ctx () (ctx.unread.take ((lineRest ctx.unread).length + 1)) ctx.held
      [⟨.debug, ctx.start, "single line comment starts"⟩] := by
  apply Ends.report_then _ _
  intro ctx₁ h₁ hheld₁
  apply Ends.ofContext
  rw [← h₁.unread_same, List.take_add, ← hheld₁]
  apply (Ends.advance ctx₁ _).bind
  intro ctx₂ h₂ hheld₂
  rw [← h₂.unread_of_take, ← hheld₂]
  exact .discard_next ctx₂

/-- The loop reads through the first closing, or all there is. -/
theorem Ends.passBlock (afterStar : Bool) {text : List Char} (hu : ctx.unread = text) :
    Ends (passBlock afterStar text) ctx (closingWidth? afterStar text).isSome
      (text.take ((closingWidth? afterStar text).getD text.length)) ctx.held [] := by
  induction text generalizing afterStar ctx with
  | nil =>
    rw [closingWidth?_nil]
    exact (Ends.read_end hu).map fun _ => false
  | cons c rest ih =>
    rw [closingWidth?_cons, Scan.passBlock]
    by_cases hslash : (afterStar && c == '/') = true
    · rw [if_pos hslash, if_pos hslash]
      apply Ends.read hu
      intro ctx₁ _ _ hheld₁
      rw [← hheld₁]
      exact .pure true ctx₁
    · rw [if_neg hslash, if_neg hslash, Option.isSome_map]
      have htake : (c :: rest).take
          (((closingWidth? (c == '*') rest).map (· + 1)).getD (c :: rest).length) =
            c :: rest.take ((closingWidth? (c == '*') rest).getD rest.length) := by
        cases closingWidth? (c == '*') rest <;> rfl
      rw [htake]
      apply Ends.read hu
      intro ctx₁ _ hu₁ hheld₁
      rw [← hheld₁]
      exact ih _ hu₁

theorem Ends.skipBlock_of_some {width : Nat} (hwidth : blockWidth? ctx.unread = some width) :
    Ends skipBlock ctx () (ctx.unread.take width) ctx.held
      [⟨.debug, ctx.start, "multi-line comment starts"⟩] := by
  apply Ends.report_then _ _
  intro ctx₁ h₁ hheld₁
  apply Ends.ofContext
  rw [h₁.unread_same, ← hheld₁]
  have hpass := Ends.passBlock false h₁.unread_same
  rw [show closingWidth? false ctx.unread = some width from hwidth] at hpass
  apply hpass.bind_still
  intro ctx₂ _ hheld₂
  rw [← hheld₂]
  exact .pure () ctx₂

/-- A block comment that is not closed takes all there is, and is reported. -/
theorem Ends.skipBlock_of_none (hnone : blockWidth? ctx.unread = none) :
    Ends skipBlock ctx () ctx.unread ctx.held
      [⟨.debug, ctx.start, "multi-line comment starts"⟩,
        ⟨.error, ctx.start, "unterminated comment"⟩] := by
  apply Ends.report_then _ _
  intro ctx₁ h₁ hheld₁
  apply Ends.ofContext
  rw [h₁.unread_same]
  have hpass := Ends.passBlock false h₁.unread_same
  rw [show closingWidth? false ctx.unread = none from hnone, Option.getD_none, List.take_length]
    at hpass
  apply hpass.bind_still
  intro ctx₂ h₂ hheld₂
  have hreport := Ends.report ctx₂ .error "unterminated comment"
  rw [h₂.start, h₁.start, hheld₂, hheld₁] at hreport
  exact hreport

/-- Whatever the form of a comment, its second character is read first, and nothing is made of it. -/
theorem makes_of_skip {d : Char} {behind more : List Char} {style : CommentStyle}
    {remarks : List Remark} (hu : ctx.unread = d :: behind)
    (hskip : ∀ ctx₁ : Context, ctx₁.unread = behind → ctx₁.start = ctx.start →
      Ends (comment style) ctx₁ () more ctx₁.held (remarks.map (·.diagnostic ctx.start))) :
    Makes Option.toList (do advance 1; comment style; return none) ctx
      { more := d :: more, remarks } := by
  have hadvance := Ends.advance ctx 1
  rw [hu, List.take_succ_cons, List.take_zero] at hadvance
  refine ⟨none, ctx.held, hadvance.bind fun ctx₁ h₁ hheld₁ => ?_, rfl⟩
  have hends := hskip ctx₁ (h₁.unread_of_append hu) h₁.start
  rw [hheld₁] at hends
  exact hends.map fun _ => none

theorem makes_comment {d : Char} {behind : List Char} (hu : ctx.unread = d :: behind) :
    Makes Option.toList (do advance 1; comment (.ofChar d); return none) ctx
      (Piece.comment d behind) := by
  unfold Piece.comment
  cases CommentStyle.ofChar d with
  | line =>
    apply makes_of_skip hu
    intro ctx₁ hu₁ hstart
    rw [← hu₁, ← hstart]
    exact .skipLine ctx₁
  | block =>
    cases hwidth : blockWidth? behind with
    | some width =>
      apply makes_of_skip hu
      intro ctx₁ hu₁ hstart
      rw [← hu₁, ← hstart]
      exact .skipBlock_of_some (hu₁ ▸ hwidth)
    | none =>
      apply makes_of_skip hu
      intro ctx₁ hu₁ hstart
      rw [← hu₁, ← hstart]
      exact .skipBlock_of_none (hu₁ ▸ hwidth)

/-! ## Operators -/

theorem makes_operatorRest (ctx : Context) (c : Char) :
    Makes Option.toList (operatorRest [c]) ctx (Piece.plainOperator c ctx.unread) := by
  let cut : Cut := ⟨.operator, c, operatorTail [c] ctx.unread⟩
  refine Makes.ofContext (Makes.of_lexeme (operatorTail_isPrefix _ _) rfl fun ctx₁ _ _ => ?_)
  exact ⟨_, _, (Ends.tokenOf ctx₁ cut).map some, rfl⟩

/-- **The routine for operators makes the piece of an operator**, which may be a comment. -/
theorem makes_operator (ctx : Context) (c : Char) :
    Makes Option.toList (operator [c]) ctx (Piece.operator c ctx.unread) := by
  have hplain := makes_operatorRest ctx c
  refine Makes.ofContext ?_
  cases hu : ctx.unread with
  | nil =>
    rw [hu] at hplain
    split
    · rename_i heq
      cases heq
    · exact hplain
  | cons d behind =>
    rw [hu] at hplain
    dsimp only [Piece.operator]
    split
    · -- A slash: what it starts is told by the character behind it.
      rename_i hstart heq
      obtain ⟨rfl, -⟩ := List.cons.inj hstart
      obtain ⟨rfl, rfl⟩ := List.cons.inj heq
      by_cases hd : d = '/' ∨ d = '*'
      · rw [if_pos hd, if_pos ⟨rfl, hd⟩]
        exact makes_comment hu
      · rw [if_neg hd, if_neg fun h => hd h.2]
        exact hplain
    · rename_i hstart
      rw [if_neg fun h => hstart d behind (by rw [h.1]) rfl]
      exact hplain

/-! ## Directives -/

theorem Ends.storeName (hb : ctx.Bounded) (hheld : ctx.held = ['#']) (cs : List Char) :
    Ends (Scan.storeCapped ctx.options.wordLimit cs) ctx () []
      ('#' :: cs.take (ctx.options.wordLimit - 1)) [] := by
  have hstore := Ends.storeCapped hb (by rw [hheld]; exact ctx.options.wordLimit_pos) cs
  rw [hheld] at hstore
  exact hstore

/-- **The routine for directives makes the piece of a directive.** -/
theorem makes_directive (hb : ctx.Bounded) (hheld : ctx.held = []) :
    Makes Option.toList directive ctx (Piece.directive ctx.tables ctx.options ctx.unread) := by
  let cut : Cut := ⟨.directive, '#', (letters ctx.unread).take (ctx.options.wordLimit - 1)⟩
  have hhash := Ends.store_of_fits hb ['#'] (by rw [hheld]; exact fits_one _)
  rw [hheld] at hhash
  apply Makes.bind_quiet hhash
  intro ctx₁ h₁ hheld₁
  apply Makes.ofContext
  dsimp only
  have hname := Ends.storeName (h₁.bounded hb) hheld₁ (letters ctx₁.unread)
  apply Makes.bind_quiet hname
  intro ctx₂ h₂ hheld₂
  have hunread : ctx₂.unread = ctx.unread := by rw [h₂.unread_same, h₁.unread_same]
  rw [h₁.unread_same, h₁.options] at hheld₂
  rw [h₁.unread_same, h₁.tables]
  have hletters : letters ctx.unread <+: ctx₂.unread := hunread ▸ letters_isPrefix ctx.unread
  -- What becomes of it is decided by what was kept, once all of it is read.
  have htext : ∀ {ctx₃ : Context}, ctx₃.held = ctx₂.held →
      ctx₃.buffer.text = String.ofList ('#' :: cut.more) :=
    fun hheld₃ => congrArg String.ofList (hheld₃.trans hheld₂)
  unfold Piece.directive
  dsimp only
  generalize hlook : ctx.tables.lookUp (String.ofList ('#' :: cut.more)) = answer
  cases answer with
  | found =>
    apply Makes.of_lexeme hletters (by rw [hunread])
    intro ctx₃ _ hheld₃
    apply Makes.ofContext
    dsimp only
    rw [htext hheld₃, hlook]
    exact ⟨_, _, (Ends.tokenOfBuffer (k := cut) (hheld₃.trans hheld₂)).map some, rfl⟩
  | unknown suggestion =>
    apply Makes.of_lexeme hletters (by rw [hunread])
    intro ctx₃ _ hheld₃
    apply Makes.ofContext
    dsimp only
    rw [htext hheld₃, hlook]
    exact ⟨none, _, (Ends.report ctx₃ _ _).map fun _ => none, rfl⟩

/-! ## Dots -/

theorem Ends.tokenOf_dot (ctx : Context) :
    Ends (Scan.tokenOf .specialSymbol ".") ctx (Cut.dot.token ctx.start) [] ctx.held [] :=
  Ends.tokenOf ctx .dot

theorem makes_oneDot {start : Position} (ctx : Context) :
    Makes (Yield.tokens start) (do return .token (← tokenOf .specialSymbol ".")) ctx
      { cuts := [.dot] } :=
  ⟨_, _, (Ends.tokenOf_dot ctx).map Yield.token, rfl⟩

/-- The first of two dots makes its token, and the second is owed. -/
theorem makes_dotPair {start : Position} (hstart : ctx.start = start) :
    Makes (Yield.tokens start) (do return .dotPair (← tokenOf .specialSymbol ".")) ctx
      { cuts := [.dot, .dot] } :=
  ⟨_, _, (Ends.tokenOf_dot ctx).map Yield.dotPair, by rw [← hstart]; rfl⟩

/-- **The routine for dots makes the piece of dots.** -/
theorem makes_dots (hr : ctx.Ready) :
    Makes (Yield.tokens ctx.start) dots ctx (Piece.dots ctx.unread) := by
  refine Makes.ofContext ?_
  have hone := Ends.advance ctx 1
  have htwo := Ends.advance ctx 2
  generalize hu : ctx.unread = rest at hone htwo ⊢
  fun_cases Piece.dots rest with
  | case1 behind =>
    -- Three dots are one token.
    let cut : Cut := ⟨.specialSymbol, '.', ['.', '.']⟩
    exact Makes.of_read htwo fun ctx₁ _ _ => ⟨_, _, (Ends.tokenOf ctx₁ cut).map Yield.token, rfl⟩
  | case2 =>
    -- The end of the text is seen behind the second dot, and cannot be given back past.
    apply Makes.of_read hone
    intro ctx₁ h₁ _
    have hnext := Ends.discard_next ctx₁
    rw [h₁.unread_of_append hu] at hnext
    exact Makes.bind_quiet hnext fun ctx₂ h₂ _ => makes_dotPair (h₂.start.trans h₁.start)
  | case3 behind =>
    -- Neither can the line feed.
    exact Makes.of_read htwo fun ctx₁ h₁ _ => makes_dotPair h₁.start
  | case4 x behind hdot hbreak =>
    -- What follows the two dots is no line feed, so both can be given back.
    rw [dotsBefore]
    · refine ⟨.token (Cut.dot.token ctx.start), ctx.held, ?_, rfl⟩
      apply Ends.retreat hr hu (by decide) hbreak
      intro ctx₁ h₁ hheld₁
      rw [← h₁.start, ← hheld₁]
      exact (Ends.tokenOf_dot ctx₁).map Yield.token
    · exact hdot
    · exact hbreak
  | case5 rest hthree hend hbreak hmore =>
    -- A single dot is a lexeme like any other.
    rw [dotsBefore]
    · exact Makes.of_read (hu ▸ Ends.lookAhead ctx) fun ctx₁ _ _ => makes_oneDot ctx₁
    · exact hthree
    · exact hend
    · exact hbreak
    · exact hmore

/-! ## Any punctuation -/

theorem makes_alone {start : Position} (ctx : Context) (kind : TokenKind) (c : Char) :
    Makes (Yield.tokens start) (do return .token (← tokenOf kind (String.ofList [c]))) ctx
      { cuts := [⟨kind, c, []⟩] } :=
  ⟨_, _, (Ends.tokenOf ctx ⟨kind, c, []⟩).map Yield.token, rfl⟩

theorem tokens_ofOption (start : Position) (value : Option Token) :
    Yield.tokens start (.ofOption value) = value.toList := by
  cases value <;> rfl

/-- **The routine for punctuation makes the piece of it.** -/
theorem makes_punctuation (c : Char) (hr : ctx.Ready) (hheld : ctx.held = []) :
    Makes (Yield.tokens ctx.start) (punctuation c) ctx
      (Piece.punctuation ctx.tables ctx.options c ctx.unread) := by
  refine Makes.ofContext ?_
  dsimp only [Piece.punctuation]
  by_cases hoperator : ctx.tables.isOperator c = true
  · rw [if_pos hoperator, if_pos hoperator]
    exact (makes_operator ctx c).map (tokens_ofOption ctx.start)
  rw [if_neg hoperator, if_neg hoperator]
  by_cases hdelimiter : ctx.tables.isDelimiter c = true
  · rw [if_pos hdelimiter, if_pos hdelimiter]
    exact makes_alone ctx .delimiter c
  rw [if_neg hdelimiter, if_neg hdelimiter]
  by_cases hhash : c = '#'
  · rw [if_pos hhash, if_pos hhash]
    exact (makes_directive hr.toBounded hheld).map (tokens_ofOption ctx.start)
  rw [if_neg hhash, if_neg hhash]
  by_cases hdot : c = '.'
  · rw [if_pos hdot, if_pos hdot]
    exact makes_dots hr
  · rw [if_neg hdot, if_neg hdot]
    exact makes_alone ctx .specialSymbol c

end CLexer.Scan
