import CLexer.Proofs.Course
import CLexer.Proofs.Separation

/-!
# Lines do not disturb each other

A text that is cut at a line feed can be scanned in two parts, as long as the part in front holds no
backslash and opens no block comment: these two are the only ways over a line feed. Whatever is
broken in the part in front, an open quote, an overlong number, half an operator, ends with its line
and has no effect behind it.

It comes down to one piece. In front of a line feed it has the cuts and the remarks that it has at
the end of the text, and it takes what it takes there and at most the line feed with it
(`Piece.Breaks`). From piece to piece this gives `outputOf_break`, from which the scan of the two
parts is put together.
-/

set_option autoImplicit false

namespace CLexer

open CLexer.Text

/-! ## Further down -/

def Position.below (rows : Nat) (p : Position) : Position := ⟨p.row + rows, p.column⟩

/-- The token, so many rows further down. -/
def Token.below (rows : Nat) (t : Token) : Token := { t with position := t.position.below rows }

/-- The diagnostic, so many rows further down. -/
def Diagnostic.below (rows : Nat) (d : Diagnostic) : Diagnostic :=
  { d with position := d.position.below rows }

/-- Counting starts anew behind a line feed. -/
theorem positionAfter_break (front cs : List Char) :
    positionAfter (front ++ '\n' :: cs) = (positionAfter cs).below (1 + front.count '\n') := by
  induction cs using List.reverseRecOn with
  | nil =>
    rw [positionAfter_concat_break]
    simp [positionAfter, Position.below, throughLastBreak]
    omega
  | append_singleton cs c ih =>
    rw [← List.cons_append, ← List.append_assoc]
    by_cases hc : c = '\n'
    · subst hc
      rw [positionAfter_concat_break, positionAfter_concat_break, ih]
      simp only [Position.below, Position.mk.injEq, and_true]
      omega
    · rw [positionAfter_concat hc, positionAfter_concat hc, ih]
      rfl

theorem Cut.tokens_below (rows : Nat) (start : Position) (cuts : List Cut) :
    Cut.tokens (start.below rows) cuts = (Cut.tokens start cuts).map (·.below rows) := by
  induction cuts generalizing start with
  | nil => rfl
  | cons k ks ih =>
    have hcolumn :
        (⟨(start.below rows).row, (start.below rows).column + k.chars.length⟩ : Position) =
          (⟨start.row, start.column + k.chars.length⟩ : Position).below rows := rfl
    rw [Cut.tokens, hcolumn, ih]
    rfl

variable {tables : Tables} {options : Options}

/-- Behind a line feed everything is as in a text of its own, further down. -/
theorem outputOf_below (tables : Tables) (options : Options) (front before text : List Char) :
    let rows := 1 + front.count '\n'
    let alone := outputOf tables options before text
    outputOf tables options (front ++ '\n' :: before) text =
      (alone.1.map (·.below rows), alone.2.map (·.below rows)) := by
  intro rows
  induction before, text using pieces_induction tables options with
  | nil before =>
    intro alone
    simp [alone, outputOf_nil]
  | cons before c rest ih =>
    intro alone
    simp only [alone, outputOf_cons]
    generalize Piece.of tables options c rest = p at ih
    have hbefore : front ++ '\n' :: before ++ c :: p.more =
        front ++ '\n' :: (before ++ c :: p.more) := by simp
    have htokens : p.tokens (positionAfter (front ++ '\n' :: before)) =
        (p.tokens (positionAfter before)).map (·.below rows) := by
      rw [positionAfter_break]
      exact Cut.tokens_below rows _ p.cuts
    have hreports : p.diagnostics (positionAfter (front ++ '\n' :: before)) =
        (p.diagnostics (positionAfter before)).map (·.below rows) := by
      rw [positionAfter_break, Piece.diagnostics, Piece.diagnostics, List.map_map]
      rfl
    rw [hbefore, ih, htokens, hreports, List.map_append, List.map_append]

/-! ## A piece in front of a line feed -/

namespace Piece

/-- The piece `p'` is what becomes of `p` if a line feed follows the rest of the text. -/
structure Breaks (rest : List Char) (p p' : Piece) : Prop where
  cuts : p'.cuts = p.cuts
  remarks : p'.remarks = p.remarks
  more : p'.more = p.more ∨ p.more = rest ∧ p'.more = rest ++ ['\n']

variable {c : Char} {rest more behind : List Char}

theorem separated_break (behind : List Char) : Lexeme.Separated ('\n' :: behind) :=
  Lexeme.separated_cons (by decide) behind

theorem Breaks.refl (rest : List Char) (p : Piece) : Breaks rest p p := ⟨rfl, rfl, .inl rfl⟩

/-- A look behind a lexeme at the end of the text sees the line feed and takes it. -/
theorem Breaks.of_lexeme (hmore : more <+: rest) (behind : List Char) (cuts : List Cut)
    (remarks : List Remark) :
    Breaks rest
      { more := more ++ glanced (rest.drop more.length), cuts, remarks }
      { more := more ++ glanced ((rest ++ '\n' :: behind).drop more.length), cuts, remarks } := by
  refine ⟨rfl, rfl, ?_⟩
  obtain ⟨left, rfl⟩ := hmore
  rw [List.append_assoc, List.drop_left, List.drop_left]
  cases left with
  | nil => exact .inr ⟨rfl, by simp [glanced]⟩
  | cons d left =>
    left
    by_cases hd : d = '\n'
    · subst hd
      rfl
    · simp [glanced, hd]

theorem breaks_word (c : Char) (rest behind : List Char) :
    Breaks rest (word tables options c rest) (word tables options c (rest ++ '\n' :: behind)) := by
  unfold word
  rw [Lexeme.word_separated (separated_break behind)]
  exact .of_lexeme (Lexeme.word_isPrefix rest) behind _ _

theorem overlong_break {limit : Nat} (hlimit : limit ≤ rest.length) (behind : List Char) :
    overlong limit (rest ++ '\n' :: behind) = overlong limit rest := by
  unfold overlong
  rw [List.take_append_of_le_length hlimit, List.drop_append_of_le_length hlimit,
    Lexeme.numberTail_separated (separated_break behind)]

theorem overlong_isPrefix (limit : Nat) (rest : List Char) : overlong limit rest <+: rest := by
  have happend := (List.prefix_append_right_inj (rest.take limit)).mpr
    (Lexeme.numberTail_isPrefix none (rest.drop limit))
  rwa [List.take_append_drop] at happend

theorem breaks_number (hc : c.isDigit = true) (rest behind : List Char) :
    Breaks rest (number options c rest) (number options c (rest ++ '\n' :: behind)) := by
  obtain ⟨more, hlexeme, hmore⟩ := Lexeme.number_eq_cons hc rest
  unfold number
  rw [← List.cons_append, Lexeme.number_separated (separated_break behind)]
  dsimp only
  rw [hlexeme]
  split
  · split
    · exact .of_lexeme hmore behind _ _
    · exact .of_lexeme hmore behind _ _
  · rename_i hfits
    -- What does not fit is longer than the limit, so that there is text enough to skip.
    have hlimit : options.lexemeLimit.getD 0 ≤ rest.length := by
      have hle := hmore.length_le
      unfold fits at hfits
      split at hfits
      · exact absurd rfl hfits
      · rename_i l hl
        rw [hl]
        simp only [List.length_cons, decide_eq_true_eq] at hfits
        show l ≤ rest.length
        omega
    rw [overlong_break hlimit]
    exact .of_lexeme (overlong_isPrefix _ rest) behind _ _

/-- An open literal is not closed by a line feed, and takes it. -/
theorem breaks_literal {quote : Char} (hquote : quote ≠ '\n') (hrest : '\\' ∉ rest)
    (closed : List Char → List Cut × List Remark) (behind : List Char) :
    Breaks rest (literal options quote rest closed)
      (literal options quote (rest ++ '\n' :: behind) closed) := by
  cases hsees : (Lexeme.literalBody quote rest).ending.seesTextEnd with
  | false =>
    unfold literal
    dsimp only
    rw [Lexeme.literalBody_append ('\n' :: behind) hsees,
      List.take_append_of_le_length (Lexeme.width_le quote rest)]
    exact .refl rest _
  | true =>
    have hend : (Lexeme.literalBody quote rest).ending = .textEnd := by
      have hdangling : (Lexeme.literalBody quote rest).ending ≠ .danglingEscape :=
        Lexeme.ending_ne_danglingEscape hrest
      generalize (Lexeme.literalBody quote rest).ending = ending at hsees hdangling ⊢
      cases ending with
      | closed => cases hsees
      | lineBreak => cases hsees
      | textEnd => rfl
      | danglingEscape => exact absurd rfl hdangling
    have hbreak := Lexeme.literalBody_break hquote behind hend
    have htext : (Lexeme.literalBody quote (rest ++ '\n' :: behind)).text =
        (Lexeme.literalBody quote rest).text := by
      rw [hbreak]
      rfl
    have hwidth : (Lexeme.literalBody quote (rest ++ '\n' :: behind)).width = rest.length + 1 := by
      rw [← Lexeme.width_of_textEnd hend, Lexeme.LiteralBody.width, Lexeme.LiteralBody.width, htext,
        hbreak, hend]
      rfl
    rw [literal_of_open closed (by rw [hend]; exact Lexeme.LiteralEnd.noConfusion),
      literal_of_open closed (by rw [hbreak]; exact Lexeme.LiteralEnd.noConfusion), htext, hwidth,
      Lexeme.width_of_textEnd hend]
    refine ⟨rfl, rfl, .inr ⟨List.take_length, ?_⟩⟩
    rw [List.take_length_add_append]
    rfl

theorem breaks_lineComment (rest behind : List Char) :
    Breaks ('/' :: rest) (comment '/' rest) (comment '/' (rest ++ '\n' :: behind)) := by
  have hstyle : Lexeme.CommentStyle.ofChar '/' = .line := by decide
  unfold comment
  rw [hstyle, Lexeme.lineRest_break]
  refine ⟨rfl, rfl, ?_⟩
  dsimp only
  by_cases hlast : (Lexeme.lineRest rest).length + 1 ≤ rest.length
  · rw [List.take_append_of_le_length hlast]
    exact .inl rfl
  · -- The line feed is the one behind the rest of the text.
    have hall : (Lexeme.lineRest rest).length = rest.length := by
      have hle : (Lexeme.lineRest rest).length ≤ rest.length :=
        (List.takeWhile_prefix _).length_le
      omega
    rw [hall, List.take_length_add_append, List.take_of_length_le (Nat.le_succ _)]
    exact .inr ⟨rfl, rfl⟩

theorem breaks_plainOperator (c : Char) (rest behind : List Char) :
    Breaks rest (plainOperator c rest) (plainOperator c (rest ++ '\n' :: behind)) := by
  unfold plainOperator
  rw [Lexeme.operatorTail_separated (separated_break behind)]
  exact .of_lexeme (Lexeme.operatorTail_isPrefix [c] rest) behind _ _

theorem breaks_operator (hblock : ¬ ['/', '*'] <+: c :: rest) (behind : List Char) :
    Breaks rest (operator c rest) (operator c (rest ++ '\n' :: behind)) := by
  have hplain := breaks_plainOperator c rest behind
  cases rest with
  | nil =>
    unfold operator
    dsimp only [List.nil_append]
    rw [if_neg (by simp)]
    exact hplain
  | cons d rest =>
    unfold operator
    dsimp only [List.cons_append]
    by_cases hcomment : c = '/' ∧ (d = '/' ∨ d = '*')
    · rw [if_pos hcomment, if_pos hcomment]
      obtain ⟨rfl, rfl | rfl⟩ := hcomment
      · exact breaks_lineComment rest behind
      · exact absurd (List.prefix_append ['/', '*'] rest) hblock
    · rw [if_neg hcomment, if_neg hcomment]
      exact hplain

theorem breaks_directive (rest behind : List Char) :
    Breaks rest (directive tables options rest)
      (directive tables options (rest ++ '\n' :: behind)) := by
  unfold directive
  rw [Lexeme.letters_separated (separated_break behind)]
  dsimp only
  split
  · exact .of_lexeme (Lexeme.letters_isPrefix rest) behind _ _
  · exact .of_lexeme (Lexeme.letters_isPrefix rest) behind _ _

/-- Two dots are two tokens in front of a line feed as at the end. -/
theorem breaks_dots (rest behind : List Char) :
    Breaks rest (dots rest) (dots (rest ++ '\n' :: behind)) := by
  cases rest with
  | nil => exact ⟨rfl, rfl, .inr ⟨rfl, rfl⟩⟩
  | cons c rest =>
    by_cases hc : c = '.'
    · subst hc
      cases rest with
      | nil => exact ⟨rfl, rfl, .inr ⟨rfl, rfl⟩⟩
      | cons d rest =>
        -- Both of the next two characters are there, and they decide.
        have hsame : dots ('.' :: d :: rest ++ '\n' :: behind) = dots ('.' :: d :: rest) := by
          by_cases hdot : d = '.'
          · subst hdot
            rfl
          · by_cases hfeed : d = '\n'
            · subst hfeed
              rfl
            · simp [dots]
        rw [hsame]
        exact .refl _ _
    · have hone : ∀ more, dots (c :: more) = { more := glanced (c :: more), cuts := [.dot] } := by
        intro more
        simp [dots, hc]
      rw [List.cons_append, hone, hone]
      exact .of_lexeme List.nil_prefix behind _ _

theorem breaks_punctuation (hblock : ¬ ['/', '*'] <+: c :: rest) (behind : List Char) :
    Breaks rest (punctuation tables options c rest)
      (punctuation tables options c (rest ++ '\n' :: behind)) := by
  unfold punctuation
  split
  · exact breaks_operator hblock behind
  · split
    · exact .refl rest _
    · split
      · exact breaks_directive rest behind
      · split
        · exact breaks_dots rest behind
        · exact .refl rest _

/-- **A line feed ends a piece as the end of the text does**, unless the piece is a block comment or
escapes the line feed. -/
theorem breaks_of (hrest : '\\' ∉ rest) (hblock : ¬ ['/', '*'] <+: c :: rest)
    (behind : List Char) :
    Breaks rest (of tables options c rest) (of tables options c (rest ++ '\n' :: behind)) := by
  unfold of lexeme
  split
  · exact .refl rest _
  · split
    · rename_i hliteral
      split
      · exact breaks_literal (by decide) hrest _ behind
      · rename_i hchar
        split
        · exact breaks_literal (by decide) hrest _ behind
        · rename_i hstring
          exact breaks_number (by simpa [isLiteralStart, hchar, hstring] using hliteral) rest behind
    · split
      · exact breaks_word c rest behind
      · split
        · exact breaks_punctuation hblock behind
        · exact .refl rest _

/-- A piece takes a start of the text behind its first character. -/
theorem more_isPrefix (tables : Tables) (options : Options) (c : Char) (rest : List Char) :
    (of tables options c rest).more <+: rest := by
  -- The step of a scanner reads just what the piece takes, and reads from the text.
  have hready := Context.ready_ofText (c :: rest) tables options "<input>"
  obtain ⟨ctx', es, y, -, hpasses, -⟩ := Context.exists_step hready rfl
  have htext : c :: rest = c :: (of tables options c rest).more ++ ctx'.unread :=
    hpasses.reads.ahead
  rw [List.cons_append, List.cons.injEq] at htext
  exact ⟨ctx'.unread, htext.2.symm⟩

end Piece

/-! ## Two parts of a text -/

/-- **A scan can be cut at a line feed.** What the two parts hand out and say is what the whole
does. -/
theorem outputOf_break (tables : Tables) (options : Options) {front : List Char}
    (hescape : '\\' ∉ front) (hblock : ¬ ['/', '*'] <:+: front) (before behind : List Char) :
    let first := outputOf tables options before front
    let second := outputOf tables options (before ++ front ++ ['\n']) behind
    outputOf tables options before (front ++ '\n' :: behind) =
      (first.1 ++ second.1, first.2 ++ second.2) := by
  induction before, front using pieces_induction tables options with
  | nil before =>
    rw [outputOf_nil, List.append_nil]
    exact outputOf_feed before behind
  | cons before c rest ih =>
    have hpiece : Piece.Breaks rest (Piece.of tables options c rest)
        (Piece.of tables options c (rest ++ '\n' :: behind)) :=
      Piece.breaks_of (fun h => hescape (List.mem_cons_of_mem c h)) (fun h => hblock h.isInfix)
        behind
    have hprefix := Piece.more_isPrefix tables options c rest
    intro first second
    simp only [first, List.cons_append, outputOf_cons]
    generalize Piece.of tables options c rest = p at hpiece hprefix ih
    generalize Piece.of tables options c (rest ++ '\n' :: behind) = p' at hpiece
    have htokens : p'.tokens = p.tokens := by
      funext start
      rw [Piece.tokens, Piece.tokens, hpiece.cuts]
    have hreports : p'.diagnostics = p.diagnostics := by
      funext start
      rw [Piece.diagnostics, Piece.diagnostics, hpiece.remarks]
    rw [htokens, hreports]
    rcases hpiece.more with hmore | ⟨hall, hmore⟩
    · -- Something is left in front of the line feed, if only nothing.
      obtain ⟨left, rfl⟩ := hprefix
      rw [List.drop_left] at ih ⊢
      have hleft := ih (fun h => hescape (by simp [h]))
        (fun h => hblock (h.trans ⟨c :: p.more, [], by simp⟩))
      have hbefore : before ++ c :: p.more ++ left ++ ['\n'] =
          before ++ c :: (p.more ++ left) ++ ['\n'] := by simp
      rw [hbefore] at hleft
      rw [hmore, List.append_assoc p.more left, List.drop_left, hleft,
        List.append_assoc (p.tokens _), List.append_assoc (p.diagnostics _)]
    · -- The piece takes all there is in front, and the line feed.
      have hdrop : (rest ++ '\n' :: behind).drop (rest ++ ['\n']).length = behind := by
        rw [show rest ++ '\n' :: behind = rest ++ ['\n'] ++ behind by simp, List.drop_left]
      have hbefore : before ++ c :: (rest ++ ['\n']) = before ++ c :: rest ++ ['\n'] := by simp
      rw [hmore, hall, List.drop_length, outputOf_nil, hdrop, hbefore, List.append_nil,
        List.append_nil]

/-- **What stands in front of a line feed has no effect behind it.** If the part in front holds no
backslash and opens no block comment, the tokens of the whole are those of the part in front and
then those of the part behind, further down by the rows of the part in front. So are the
diagnostics. -/
theorem parts_are_isolated {front : String} (hescape : '\\' ∉ front.toList)
    (hblock : ¬ ['/', '*'] <:+: front.toList) (behind : String) (tables : Tables)
    (options : Options) (verbose : Bool) :
    let whole := scanText (front ++ "\n" ++ behind) tables options [.collector verbose]
    let first := scanText front tables options [.collector verbose]
    let second := scanText behind tables options [.collector verbose]
    let rows := 1 + front.toList.count '\n'
    whole.failure = none ∧
      whole.tokens = first.tokens ++ second.tokens.map (·.below rows) ∧
      whole.kept = first.kept ++ second.kept.map (·.below rows) := by
  intro whole first second rows
  have hwhole : (front ++ "\n" ++ behind).toList = front.toList ++ '\n' :: behind.toList := by
    simp
  obtain ⟨hfailure, hwholeTokens, hwholeKept⟩ :=
    scanInput_collector (front ++ "\n" ++ behind).toList tables options verbose "<input>"
  obtain ⟨-, hfirstTokens, hfirstKept⟩ :=
    scanInput_collector front.toList tables options verbose "<input>"
  obtain ⟨-, hsecondTokens, hsecondKept⟩ :=
    scanInput_collector behind.toList tables options verbose "<input>"
  have hparts := outputOf_break tables options hescape hblock [] behind.toList
  have hbelow := outputOf_below tables options front.toList [] behind.toList
  rw [List.nil_append, hbelow, ← hwhole] at hparts
  -- Whether a collector admits a diagnostic does not depend on where it is.
  have hadmits : (Sink.collector verbose).admits ∘ (Diagnostic.below rows) =
      (Sink.collector verbose).admits := rfl
  rw [hparts, ← hfirstTokens, ← hsecondTokens] at hwholeTokens
  rw [hparts, List.filter_append, List.filter_map, hadmits, ← hfirstKept,
    ← hsecondKept] at hwholeKept
  exact ⟨hfailure, hwholeTokens, hwholeKept⟩

theorem parts_are_isolated_by_open_quote :
    '\\' ∉ "a = 'b // c".toList ∧ ¬ ['/', '*'] <:+: "a = 'b // c".toList ∧
      let whole := scanText ("a = 'b // c" ++ "\n" ++ "d'e'") .standard {} [.collector false]
      let first := scanText "a = 'b // c" .standard {} [.collector false]
      let second := scanText "d'e'" .standard {} [.collector false]
      let rows := 1 + "a = 'b // c".toList.count '\n'
      whole.failure = none ∧
        whole.tokens = first.tokens ++ second.tokens.map (·.below rows) ∧
        whole.kept = first.kept ++ second.kept.map (·.below rows) := by
  have hescape : '\\' ∉ "a = 'b // c".toList := by decide
  have hblock : ¬ ['/', '*'] <:+: "a = 'b // c".toList := by decide +kernel
  refine ⟨hescape, hblock, ?_⟩
  intro whole first second rows
  exact parts_are_isolated hescape hblock "d'e'" .standard {} false

end CLexer
