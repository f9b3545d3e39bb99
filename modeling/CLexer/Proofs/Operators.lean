import CLexer.Proofs.Comments
import CLexer.Proofs.LongestMatch
import CLexer.Proofs.Rescan

/-!
# Operators and dots

An operator is read greedily: as long as the next character is a listed continuation, it belongs to
the operator. The lexicon of operators are the texts that can be reached in this way, and greedy
reading finds the longest of them that the text starts with. It never has to give back more than
the one character it stopped at, because every start of a text in the lexicon is in the lexicon
too.

Dots are different. Three of them are one token and two of them are not, so that a second dot may
have to be given back, and with it the character behind it. In front of a line feed or of the end
that cannot be done, and the routine for dots makes both tokens itself. From outside no difference
is seen: unless three dots follow each other, a dot is a token, and the scan goes on as if it
started right behind it (`outputOf_dot`).
-/

set_option autoImplicit false

namespace CLexer

open CLexer.Lexeme Event

/-! ## The lexicon -/

namespace Lexeme

/-- The text is a single character, gone on with by listed continuations. -/
def InLexicon (text : List Char) : Prop := ∃ c more, text = c :: more ∧ Continues [c] more

theorem grows_operatorTail (operator : List Char) : Grows (operatorTail operator) := by
  intro text behind
  induction text generalizing operator with
  | nil => exact List.nil_prefix
  | cons c text ih =>
    simp only [List.cons_append, operatorTail]
    split
    · exact List.cons_prefix_cons.mpr ⟨rfl, ih _⟩
    · exact List.nil_prefix

/-- Greedy reading finds the longest operator there is. -/
theorem longestPrefix_operatorTail (c : Char) (rest : List Char) :
    LongestPrefix InLexicon (c :: rest) (c :: operatorTail [c] rest) where
  isPrefix := List.cons_prefix_cons.mpr ⟨rfl, operatorTail_isPrefix _ _⟩
  holds := ⟨c, operatorTail [c] rest, rfl, continues_operatorTail _ _⟩
  longest := by
    rintro other hprefix ⟨d, more, rfl, hmore⟩
    obtain ⟨rfl, behind, rfl⟩ := List.cons_prefix_cons.mp hprefix
    -- What can be reached is read as a whole when it stands alone, and more text takes nothing
    -- back.
    have hgrows := grows_operatorTail [d] more behind
    rw [operatorTail_of_continues hmore] at hgrows
    exact Nat.succ_le_succ hgrows.length_le

end Lexeme

/-! ## Pieces -/

theorem Piece.operator_of_no_comment {c : Char} {rest : List Char}
    (hline : ¬ ['/', '/'] <+: c :: rest) (hblock : ¬ ['/', '*'] <+: c :: rest) :
    Piece.operator c rest = Piece.plainOperator c rest := by
  cases rest with
  | nil => rfl
  | cons d behind =>
    refine if_neg ?_
    rintro ⟨rfl, rfl | rfl⟩
    · exact hline ⟨behind, rfl⟩
    · exact hblock ⟨behind, rfl⟩

/-- Without two dots behind it, a dot is a token, and nothing is taken with it but a line feed. In
front of a line end the next dot is another such token, and is taken as well. -/
theorem Piece.dots_cases {rest : List Char} (h : ¬ ['.', '.'] <+: rest) :
    Piece.dots rest = { more := glanced rest, cuts := [.dot] } ∨
      ∃ feed, rest = '.' :: feed ∧
        Piece.dots rest = { more := '.' :: glanced feed, cuts := [.dot, .dot] } ∧
        Piece.dots feed = { more := glanced feed, cuts := [.dot] } := by
  fun_cases Piece.dots rest with
  | case1 behind => exact absurd ⟨behind, rfl⟩ h
  | case2 => exact .inr ⟨[], rfl, rfl, rfl⟩
  | case3 behind => exact .inr ⟨'\n' :: behind, rfl, rfl, rfl⟩
  | case4 x behind => exact .inl rfl
  | case5 => exact .inl rfl

variable {tables : Tables} {options : Options} {rest : List Char}

theorem Piece.of_dot (hoperator : '.' ∉ tables.operators) (hdelimiter : '.' ∉ tables.delimiters)
    (rest : List Char) : Piece.of tables options '.' rest = Piece.dots rest := by
  rw [Piece.of_symbol ⟨by decide, by decide, by decide⟩,
    Piece.punctuation_of_unlisted hoperator hdelimiter]
  rfl

/-- A dot that is taken alone, or with a line feed, leaves what is behind it as it was. -/
theorem outputOf_dot_alone (hoperator : '.' ∉ tables.operators)
    (hdelimiter : '.' ∉ tables.delimiters)
    (h : Piece.dots rest = { more := Piece.glanced rest, cuts := [.dot] }) (before : List Char) :
    let next := outputOf tables options (before ++ ['.']) rest
    outputOf tables options before ('.' :: rest) =
      (Cut.dot.token (positionAfter before) :: next.1, next.2) := by
  intro next
  have hnext : outputOf tables options (before ++ '.' :: Piece.glanced rest)
      (rest.drop (Piece.glanced rest).length) = next := by
    rw [List.append_cons]
    exact outputOf_glanced (before ++ ['.']) rest
  rw [outputOf_cons, Piece.of_dot hoperator hdelimiter, h, hnext]
  rfl

/-- **A dot is a token, and what is behind it is scanned as if nothing had been looked at.** -/
theorem outputOf_dot (hoperator : '.' ∉ tables.operators) (hdelimiter : '.' ∉ tables.delimiters)
    (h : ¬ ['.', '.'] <+: rest) (before : List Char) :
    let next := outputOf tables options (before ++ ['.']) rest
    outputOf tables options before ('.' :: rest) =
      (Cut.dot.token (positionAfter before) :: next.1, next.2) := by
  rcases Piece.dots_cases h with halone | ⟨feed, rfl, hpair, halone⟩
  · exact outputOf_dot_alone hoperator hdelimiter halone before
  · -- The second dot is taken with the first, and it is what the next step would have made of it.
    intro next
    have hnext : next = _ := outputOf_dot_alone hoperator hdelimiter halone (before ++ ['.'])
    have hrest : outputOf tables options (before ++ '.' :: '.' :: Piece.glanced feed)
        (('.' :: feed).drop ('.' :: Piece.glanced feed).length) =
          outputOf tables options (before ++ ['.'] ++ ['.']) feed := by
      rw [List.append_cons, List.append_cons]
      exact outputOf_glanced (before ++ ['.'] ++ ['.']) feed
    have hbehind : positionAfter (before ++ ['.']) =
        ⟨(positionAfter before).row, (positionAfter before).column + 1⟩ :=
      positionAfter_concat (by decide) before
    rw [outputOf_cons, Piece.of_dot hoperator hdelimiter, hpair, hrest, hnext, hbehind]
    rfl

/-! ## The routines -/

namespace Scan

variable {ctx : Context}

/-- An operator that starts no comment is the longest one there is. -/
theorem exists_ends_operator {c : Char} (hline : ¬ ['/', '/'] <+: c :: ctx.unread)
    (hblock : ¬ ['/', '*'] <+: c :: ctx.unread) :
    ∃ (t : Token) (held : List Char), t.kind = .operator ∧ t.position = ctx.start ∧
      LongestPrefix InLexicon (c :: ctx.unread) t.text.toList ∧
      Ends (operator [c]) ctx (some t)
        (t.text.toList.tail ++ Piece.glanced ((c :: ctx.unread).drop t.text.toList.length)) held
        [] := by
  obtain ⟨value, held, hends, hvalue⟩ := makes_operator ctx c
  rw [Piece.operator_of_no_comment hline hblock] at hends hvalue
  let cut : Cut := ⟨.operator, c, operatorTail [c] ctx.unread⟩
  obtain ⟨t, rfl⟩ : ∃ t, value = some t := by
    cases value with
    | none => cases hvalue
    | some t => exact ⟨t, rfl⟩
  obtain rfl : t = cut.token ctx.start := List.head_eq_of_cons_eq hvalue
  have htext : (cut.token ctx.start).text.toList = c :: operatorTail [c] ctx.unread :=
    String.toList_ofList
  refine ⟨cut.token ctx.start, held, rfl, rfl, ?_, ?_⟩
  · rw [htext]
    exact longestPrefix_operatorTail c ctx.unread
  · rw [htext]
    exact hends

theorem ends_ellipsis (hr : ctx.Ready) (h : ['.', '.'] <+: ctx.unread) :
    ∃ (t : Token) (held : List Char), t.kind = .specialSymbol ∧ t.text = "..." ∧
      t.position = ctx.start ∧ Ends dots ctx (.token t) ['.', '.'] held [] := by
  obtain ⟨y, held, hends, hview⟩ := makes_dots hr
  obtain ⟨behind, hu⟩ := h
  rw [← hu] at hends hview
  let cut : Cut := ⟨.specialSymbol, '.', ['.', '.']⟩
  obtain rfl : y = .token (cut.token ctx.start) := by
    cases y with
    | nothing => cases hview
    | token t => rw [List.head_eq_of_cons_eq hview]
    | dotPair t => cases hview
  exact ⟨cut.token ctx.start, held, rfl, rfl, rfl, hends⟩

/-- No other dots become an ellipsis. In front of a line end a second dot is handed out with the
first. -/
theorem ends_dots (hr : ctx.Ready) (h : ¬ ['.', '.'] <+: ctx.unread) :
    ∃ (y : Yield) (taken held : List Char), Ends dots ctx y taken held [] ∧
      (∀ t ∈ y.tokens ctx.start, t.text = ".") ∧
      (ctx.unread = ['.'] ∨ ['.', '\n'] <+: ctx.unread → ∃ t, y = .dotPair t) := by
  obtain ⟨y, held, hends, hview⟩ := makes_dots hr
  rcases Piece.dots_cases h with hpiece | ⟨feed, -, hpiece, -⟩
  · have hcuts : (Piece.dots ctx.unread).cuts = [.dot] := by rw [hpiece]
    rw [hpiece] at hends hview
    refine ⟨y, _, held, hends, fun t ht => ?_, fun hend => ?_⟩
    · rw [hview] at ht
      rw [List.mem_singleton.mp ht]
      rfl
    · -- There the piece would have had two dots.
      rcases hend with hu | ⟨behind, hu⟩
      · rw [hu] at hcuts
        cases hcuts
      · rw [← hu] at hcuts
        cases hcuts
  · rw [hpiece] at hends hview
    refine ⟨y, _, held, hends, fun t ht => ?_, fun _ => ?_⟩
    · rw [hview] at ht
      rcases List.mem_cons.mp ht with rfl | ht
      · rfl
      · rw [List.mem_singleton.mp ht]
        rfl
    · cases y with
      | nothing => cases hview
      | token t => cases hview
      | dotPair t => exact ⟨t, rfl⟩

end Scan

/-! ## A whole scan -/

namespace Context

variable {ctx : Context} {before : List Char}

/-- A scan that starts anywhere in a text hands out and says what the rest of the text tells. -/
theorem StandsBehind.output_eq (h : ctx.StandsBehind before) :
    ctx.scan.fault = none ∧
      (tokens ctx.scan.events, reports ctx.scan.events) =
        outputOf ctx.tables ctx.options before ctx.unread := by
  obtain ⟨turns, told⟩ := exists_told before ctx h.ready h.place
  obtain ⟨htokens, hreports⟩ := ctx.scan_eq
  refine ⟨told.fault, ?_⟩
  rw [outputOf, ← told.eq_turnsOf]
  exact Prod.ext (htokens.trans told.tokens) (hreports.trans told.reports)

/-- The context with one more character read. -/
def past (ctx : Context) : Context := { ctx with cursor := ctx.cursor.next.2 }

theorem StandsBehind.past (h : ctx.StandsBehind before) {c : Char} {rest : List Char}
    (hu : ctx.unread = c :: rest) :
    ctx.past.StandsBehind (before ++ [c]) ∧ ctx.past.unread = rest := by
  have hreads : ctx.cursor.Reads [c] ctx.cursor.next.2 := .next_cons hu
  have hplace : ctx.past.cursor.place = ({} : Place).steps (before ++ [c]) := by
    rw [Place.steps_append, ← h.place]
    exact hreads.place
  refine ⟨⟨(Moves.of_reads hreads).ready h.ready, hplace⟩, ?_⟩
  rw [(Moves.of_reads hreads).unread] at hu
  exact (List.cons.inj hu).2

end Context

/-! ## Both -/

/-- **Operators and dots are longest matches.** An operator, behind its first character and unless
it starts a comment, is the longest text of the lexicon that stands there, and what is left is what
is behind it, but for a line feed. Dots are an ellipsis if there are three, and then both that
follow the first are read. Otherwise the first is a token by itself, and the scan goes on like a
scan from the place behind it; in front of a line end the second dot comes from the same call. -/
theorem symbols_are_longest_matches :
    (∀ (ctx : Context) (c : Char),
      ¬ ['/', '/'] <+: c :: ctx.unread → ¬ ['/', '*'] <+: c :: ctx.unread →
      ∃ (t : Token) (held : List Char), t.kind = .operator ∧ t.position = ctx.start ∧
        LongestPrefix InLexicon (c :: ctx.unread) t.text.toList ∧
        Scan.Ends (Scan.operator [c]) ctx (some t)
          (t.text.toList.tail ++ Piece.glanced ((c :: ctx.unread).drop t.text.toList.length)) held
          []) ∧
    (∀ ctx : Context, ctx.Ready →
      (['.', '.'] <+: ctx.unread → ∃ (t : Token) (held : List Char), t.kind = .specialSymbol ∧
        t.text = "..." ∧ t.position = ctx.start ∧
        Scan.Ends Scan.dots ctx (.token t) ['.', '.'] held []) ∧
      (¬ ['.', '.'] <+: ctx.unread → ∃ (y : Yield) (taken held : List Char),
        Scan.Ends Scan.dots ctx y taken held [] ∧ (∀ t ∈ y.tokens ctx.start, t.text = ".") ∧
        (ctx.unread = ['.'] ∨ ['.', '\n'] <+: ctx.unread → ∃ t, y = .dotPair t))) ∧
    ∀ (ctx : Context) (before rest : List Char), ctx.StandsBehind before →
      ctx.unread = '.' :: rest → '.' ∉ ctx.tables.operators → '.' ∉ ctx.tables.delimiters →
      ¬ ['.', '.'] <+: rest →
      (ctx.past.StandsBehind (before ++ ['.']) ∧ ctx.past.unread = rest) ∧
        ∃ t : Token, t.kind = .specialSymbol ∧ t.text = "." ∧ t.position = positionAfter before ∧
          tokens ctx.scan.events = t :: tokens ctx.past.scan.events ∧
          reports ctx.scan.events = reports ctx.past.scan.events ∧
          ctx.scan.fault = none ∧ ctx.past.scan.fault = none := by
  refine ⟨fun ctx c => Scan.exists_ends_operator,
    fun ctx hr => ⟨Scan.ends_ellipsis hr, Scan.ends_dots hr⟩, ?_⟩
  intro ctx before rest hstands hu hoperator hdelimiter hdots
  obtain ⟨hpast, hrest⟩ := hstands.past hu
  obtain ⟨hfault, houtput⟩ := hstands.output_eq
  obtain ⟨hfault', houtput'⟩ := hpast.output_eq
  rw [hu, outputOf_dot hoperator hdelimiter hdots] at houtput
  have htables : ctx.past.tables = ctx.tables := rfl
  have hoptions : ctx.past.options = ctx.options := rfl
  rw [htables, hoptions, hrest] at houtput'
  rw [← houtput'] at houtput
  obtain ⟨htokens, hreports⟩ := Prod.mk.inj houtput
  exact ⟨⟨hpast, hrest⟩, Cut.dot.token (positionAfter before), rfl, rfl, rfl, htokens, hreports,
    hfault, hfault'⟩

/-- Three characters of an operator, three of four dots, and two dots in front of a line feed. -/
theorem symbols_are_longest_matches_at_line_end :
    let reached := fun text : String =>
      (Scan.begin (Scan.next (Context.ofText text.toList .standard {})).context).context
    let shift := reached ">>=="
    let four := reached "...."
    let two := Context.ofText "..\n".toList .standard {}
    ((¬ ['/', '/'] <+: '>' :: shift.unread ∧ ¬ ['/', '*'] <+: '>' :: shift.unread) ∧
        ∃ (t : Token) (held : List Char), t.kind = .operator ∧ t.text.toList = ">>=".toList ∧
          Scan.Ends (Scan.operator ['>']) shift (some t) ['>', '='] held []) ∧
      ((four.Ready ∧ ['.', '.'] <+: four.unread) ∧ ∃ (t : Token) (held : List Char),
        t.text = "..." ∧ Scan.Ends Scan.dots four (.token t) ['.', '.'] held []) ∧
      (two.StandsBehind [] ∧ two.unread = '.' :: ['.', '\n'] ∧
          '.' ∉ two.tables.operators ∧ '.' ∉ two.tables.delimiters ∧
          ¬ ['.', '.'] <+: ['.', '\n']) ∧
        ∃ t : Token, t.text = "." ∧ tokens two.scan.events = t :: tokens two.past.scan.events := by
  intro reached shift four two
  obtain ⟨hoperators, hdots, hscans⟩ := symbols_are_longest_matches
  have hcomment : ¬ ['/', '/'] <+: '>' :: shift.unread ∧ ¬ ['/', '*'] <+: '>' :: shift.unread := by
    decide
  have hready : four.Ready := ⟨(Context.fresh_ofText _ _ _ _).toBounded, by decide⟩
  have hfour : ['.', '.'] <+: four.unread := by decide
  have hstands : two.StandsBehind [] := Context.standsBehind_ofText _ _ _ _
  have hoperator : '.' ∉ two.tables.operators := by decide
  have hdelimiter : '.' ∉ two.tables.delimiters := by decide
  have hdot : ¬ ['.', '.'] <+: ['.', '\n'] := by decide
  obtain ⟨t, held, hkind, -, hlongest, hends⟩ := hoperators shift '>' hcomment.1 hcomment.2
  have htext : t.text.toList = ">>=".toList :=
    (longestPrefix_operatorTail '>' shift.unread).unique hlongest
  rw [htext] at hends
  obtain ⟨t', held', -, htext', -, hends'⟩ := (hdots four hready).1 hfour
  obtain ⟨-, first, -, hfirst, -, htokens, -⟩ :=
    hscans two [] ['.', '\n'] hstands rfl hoperator hdelimiter hdot
  exact ⟨⟨hcomment, t, held, hkind, htext, hends⟩, ⟨⟨hready, hfour⟩, t', held', htext', hends'⟩,
    ⟨hstands, rfl, hoperator, hdelimiter, hdot⟩, first, hfirst, htokens⟩

end CLexer
