import CLexer.Proofs.LongestMatch
import CLexer.Proofs.Scan.Literal

/-!
# Where a literal ends

Between its quotes a literal is a sequence of units, and its inside is the longest such sequence
that the text behind the opening quote starts with. What stands behind the inside decides the rest:
the closing quote makes a literal, and anything else, a line break, a lone backslash or the end of
the text, leaves it unclosed.

The recogniser goes through the text unit by unit and looks for what ends them. It never has to be
asked whether another way of taking the text apart would go further: what is a sequence of units is
read as those units, whatever comes behind (`literalBody_append_units`).
-/

set_option autoImplicit false

namespace CLexer.Lexeme

/-- Units that may stand between two quotes, written one after the other. -/
def UnitSequence (quote : Char) (cs : List Char) : Prop :=
  ∃ units : List LiteralUnit, (∀ u ∈ units, u.Fits quote) ∧ cs = unitsText units

/-- What stands behind the inside of a literal that is not closed, and how much of the text is read
with the literal. -/
inductive Unclosed (inside : List Char) : List Char → List Char → Prop
  | lineBreak {c : Char} {rest : List Char} (hc : c = '\r' ∨ c = '\n') :
      Unclosed inside (inside ++ c :: rest) (inside ++ [c])
  | loneBackslash : Unclosed inside (inside ++ ['\\']) (inside ++ ['\\'])
  | textEnd : Unclosed inside inside inside

variable {quote : Char} {inside text taken : List Char}

theorem Unclosed.append_left (h : Unclosed inside text taken) (front : List Char) :
    Unclosed (front ++ inside) (front ++ text) (front ++ taken) := by
  cases h with
  | lineBreak hc =>
    rw [← List.append_assoc, ← List.append_assoc]
    exact .lineBreak hc
  | loneBackslash =>
    rw [← List.append_assoc]
    exact .loneBackslash
  | textEnd => exact .textEnd

/-- A literal that is not closed ends in one of the other ways. -/
theorem unclosed_of_open (h : (literalBody quote text).ending ≠ .closed) :
    Unclosed (literalBody quote text).text text (text.take (literalBody quote text).width) := by
  fun_induction literalBody quote text with
  | case1 => exact .textEnd
  | case2 => exact .loneBackslash
  | case3 c rest ih =>
    have hrest := (ih h).append_left (LiteralUnit.text (.escape c))
    rw [← take_width_append] at hrest
    exact hrest
  | case4 => exact absurd rfl h
  | case5 c rest _ _ _ hbreak => exact .lineBreak hbreak
  | case6 c rest _ _ _ _ ih =>
    have hrest := (ih h).append_left (LiteralUnit.text (.plain c))
    rw [← take_width_append] at hrest
    exact hrest

theorem Unclosed.inside_isPrefix (h : Unclosed inside text taken) : inside <+: text := by
  cases h with
  | lineBreak => exact List.prefix_append inside _
  | loneBackslash => exact List.prefix_append inside _
  | textEnd => exact List.prefix_refl inside

/-- How much is read with a literal that is not closed is told by its inside. -/
theorem Unclosed.unique {other : List Char} (h : Unclosed inside text taken)
    (h' : Unclosed inside text other) : other = taken := by
  generalize htext : text = text' at h'
  cases h with
  | lineBreak hc =>
    cases h' with
    | lineBreak =>
      obtain ⟨rfl, -⟩ := List.cons.inj (List.append_cancel_left htext)
      rfl
    | loneBackslash =>
      obtain ⟨rfl, -⟩ := List.cons.inj (List.append_cancel_left htext)
      exact absurd hc (by decide)
    | textEnd => simp at htext
  | loneBackslash =>
    cases h' with
    | lineBreak hc =>
      obtain ⟨rfl, -⟩ := List.cons.inj (List.append_cancel_left htext)
      exact absurd hc (by decide)
    | loneBackslash => rfl
    | textEnd => simp at htext
  | textEnd =>
    cases h' with
    | lineBreak => simp at htext
    | loneBackslash => simp at htext
    | textEnd => rfl

theorem unitSequence_literalBody (quote : Char) (text : List Char) :
    UnitSequence quote (literalBody quote text).text :=
  ⟨_, fits_of_mem_literalBody, rfl⟩

/-- **The inside of a literal is the longest sequence of units that the text starts with.** -/
theorem longestPrefix_literalBody (quote : Char) (text : List Char) :
    LongestPrefix (UnitSequence quote) text (literalBody quote text).text where
  isPrefix := by
    by_cases hclosed : (literalBody quote text).ending = .closed
    · exact (List.prefix_append _ _).trans (literalBody_closed hclosed)
    · exact (unclosed_of_open hclosed).inside_isPrefix
  holds := unitSequence_literalBody quote text
  longest := by
    rintro other ⟨behind, rfl⟩ ⟨units, hunits, rfl⟩
    rw [literalBody_append_units hunits]
    simp [LiteralBody.text, unitsText]

/-- A literal is closed exactly if a quote stands behind its inside. -/
theorem closed_iff (hquote : quote ≠ '\\') : (literalBody quote text).ending = .closed ↔
    ∃ rest, text = (literalBody quote text).text ++ quote :: rest := by
  constructor
  · intro hclosed
    obtain ⟨rest, hrest⟩ := literalBody_closed hclosed
    exact ⟨rest, by simpa using hrest.symm⟩
  · rintro ⟨rest, hrest⟩
    have hunits : ∀ u ∈ (literalBody quote text).units, u.Fits quote := fits_of_mem_literalBody
    have hread := literalBody_of_units hquote hunits rest
    exact (congrArg (fun t => (literalBody quote t).ending) hrest).trans
      (congrArg LiteralBody.ending hread)

end CLexer.Lexeme

namespace CLexer.Scan

open CLexer.Text CLexer.Lexeme

variable {ctx : Context} {quote : Char}

/-- Of a closed literal it is never said that it is not closed. -/
theorem closed_ne_unterminated (hquote : quote = apostrophe ∨ quote = doubleQuote)
    (options : Options) (inside : List Char) :
    ∀ r ∈ (Piece.closed options quote inside).2, r.message ≠ unterminatedMessage quote := by
  rcases hquote with rfl | rfl
  · show ∀ r ∈ (Piece.closedChar options inside).2, r.message ≠ unterminatedMessage apostrophe
    unfold Piece.closedChar
    dsimp only
    split
    · simp only [List.forall_mem_singleton]
      decide
    · split
      · simp only [List.forall_mem_singleton]
        decide
      · exact fun _ hr => absurd hr List.not_mem_nil
  · exact fun _ hr => absurd hr List.not_mem_nil

theorem Ends.literal_of_closed (hfresh : ctx.Fresh) (hlimit : ctx.options.lexemeLimit = none)
    (hquote : quote = apostrophe ∨ quote = doubleQuote)
    (hclosed : (literalBody quote ctx.unread).ending = .closed) :
    ∃ value ds, Ends (literal quote) ctx value ((literalBody quote ctx.unread).text ++ [quote])
      (quote :: ((literalBody quote ctx.unread).text ++ [quote])) ds ∧
        ∀ r ∈ ds, r.message ≠ unterminatedMessage quote := by
  obtain ⟨value, -, hends⟩ := Ends.literal_closed_of_fits hquote hfresh.toBounded hfresh.held
    hclosed (fits_of_unlimited hlimit _)
  refine ⟨value, _, hends, fun r hr => ?_⟩
  obtain ⟨remark, hremark, rfl⟩ := List.mem_map.mp hr
  exact closed_ne_unterminated hquote ctx.options _ remark hremark

theorem Ends.literal_of_open (hfresh : ctx.Fresh) (hlimit : ctx.options.lexemeLimit = none)
    (hquote : quote = apostrophe ∨ quote = doubleQuote)
    (hopen : (literalBody quote ctx.unread).ending ≠ .closed) :
    Ends (literal quote) ctx none (ctx.unread.take (literalBody quote ctx.unread).width)
      (quote :: (literalBody quote ctx.unread).text)
      [⟨.error, ctx.cursor.position, unterminatedMessage quote⟩] := by
  obtain ⟨value, hvalue, hends⟩ := Ends.literal_of_fits hquote hfresh.toBounded hfresh.held
    (fits_of_unlimited hlimit _)
  rw [Piece.literal_of_open _ hopen, if_pos (fits_of_unlimited hlimit _),
    stored_of_open hopen] at hends
  rw [Piece.literal_of_open _ hopen] at hvalue
  rw [← hfresh.start, ← Option.toList_eq_nil_iff.mp hvalue]
  exact hends

/-- **Quoted literals are recognised exactly.** The opening quote was just read, and nothing limits
the length of a literal. The text behind the quote has one longest start that is a sequence of units.
A literal is closed if its quote stands behind that; it is then stored with both quotes and read up to
the closing one. Otherwise it makes no token, and is reported at its opening quote. -/
theorem quotation_is_exact (hfresh : ctx.Fresh) (hlimit : ctx.options.lexemeLimit = none)
    (hquote : quote = apostrophe ∨ quote = doubleQuote) :
    ∃ inside, LongestPrefix (UnitSequence quote) ctx.unread inside ∧
      (∀ other, LongestPrefix (UnitSequence quote) ctx.unread other → other = inside) ∧
      ((∃ rest, ctx.unread = inside ++ quote :: rest) →
        Ends (quoted quote) ctx .closed (inside ++ [quote]) (quote :: (inside ++ [quote])) [] ∧
          ∃ value ds, Ends (literal quote) ctx value (inside ++ [quote])
            (quote :: (inside ++ [quote])) ds ∧ ∀ r ∈ ds, r.message ≠ unterminatedMessage quote) ∧
      ((¬ ∃ rest, ctx.unread = inside ++ quote :: rest) →
        ∃ taken, Unclosed inside ctx.unread taken ∧
          Ends (literal quote) ctx none taken (quote :: inside)
            [⟨.error, ctx.cursor.position,
              "missing terminating " ++ String.ofList [quote] ++ " character"⟩]) := by
  have hplain := ne_backslash_of_quote hquote
  have hlongest := longestPrefix_literalBody quote ctx.unread
  refine ⟨_, hlongest, fun other h => hlongest.unique h, ?_, ?_⟩
  · intro hclosed
    have hending := (closed_iff hplain).mpr hclosed
    have hquoted := Ends.quoted_of_fits hplain hfresh.toBounded hfresh.held
      (fits_of_unlimited hlimit _)
    rw [hending, stored_of_closed hending, take_width_of_closed hending] at hquoted
    exact ⟨hquoted, Ends.literal_of_closed hfresh hlimit hquote hending⟩
  · intro hopen
    have hending := mt (closed_iff hplain).mp hopen
    exact ⟨_, unclosed_of_open hending, Ends.literal_of_open hfresh hlimit hquote hending⟩

/-- An escaped quote is part of a string, and does not close one. -/
theorem quotation_is_exact_of_escape :
    let reached := fun text : String =>
      (begin (next (Context.ofText text.toList .standard {})).context).context
    let closed := reached "\"a\\\"b\";"
    let unclosed := reached "\"a\\\""
    ((closed.Fresh ∧ closed.options.lexemeLimit = none) ∧
        Ends (quoted doubleQuote) closed .closed "a\\\"b\"".toList "\"a\\\"b\"".toList []) ∧
      (unclosed.Fresh ∧ unclosed.options.lexemeLimit = none) ∧
        Ends (literal doubleQuote) unclosed none "a\\\"".toList "\"a\\\"".toList
          [⟨.error, ⟨1, 1⟩, "missing terminating \" character"⟩] := by
  intro reached closed unclosed
  have hclosed : closed.Fresh := Context.fresh_ofText _ _ _ _
  have hunclosed : unclosed.Fresh := Context.fresh_ofText _ _ _ _
  obtain ⟨inside, -, hunique, hends, -⟩ := quotation_is_exact hclosed rfl (.inr rfl)
  obtain ⟨inside', -, hunique', -, hends'⟩ := quotation_is_exact hunclosed rfl (.inr rfl)
  obtain rfl := hunique _ (longestPrefix_literalBody doubleQuote closed.unread)
  obtain rfl := hunique' _ (longestPrefix_literalBody doubleQuote unclosed.unread)
  refine ⟨⟨⟨hclosed, rfl⟩, (hends ⟨[';'], by decide⟩).1⟩, ⟨hunclosed, rfl⟩, ?_⟩
  have hopen : (literalBody doubleQuote unclosed.unread).ending ≠ .closed := by decide
  obtain ⟨taken, htaken, hends'⟩ := hends' (mt (closed_iff (by decide)).mpr hopen)
  obtain rfl := (unclosed_of_open hopen).unique htaken
  exact hends'

end CLexer.Scan
