import CLexer.Proofs.Scan.Word

/-!
# Numbers, as they are scanned

A number that fits the buffer is stored and read as far as its lexical form goes. One that does not
fit is stored up to the limit, and then everything that looks like the rest of a number is passed
over. Where the passing over begins is counted from the character that found no room, which was read
already; `Piece.overlong` says the same of the text.
-/

set_option autoImplicit false

namespace CLexer.Scan

variable {ctx : Context}

theorem Ends.reportTooLong (hb : ctx.Bounded) :
    Ends reportTooLong ctx () [] ctx.held [(Piece.tooLong ctx.options).diagnostic ctx.start] := by
  refine Ends.ofContext ?_
  have hlimit : ctx.buffer.overflow.limit = ctx.options.lexemeLimit.getD 0 := by
    rw [← hb.limit]
    rfl
  rw [hlimit]
  exact .report ctx _ _

theorem Ends.skipRest (ctx : Context) :
    let tail := Lexeme.numberTail none ctx.unread
    Ends skipRest ctx () (tail ++ Piece.glanced (ctx.unread.drop tail.length)) ctx.held [] :=
  Ends.ofContext (Ends.advance_lookAhead (Lexeme.numberTail_isPrefix _ _))

/-- A number that finds room is stored and read, and then finished. -/
theorem Ends.number_of_fill {c : Char} {more held : List Char} {value : Option Token}
    {ds : List Diagnostic} (hlexeme : (Lexeme.number (c :: ctx.unread)).lexeme = c :: more)
    (hmore : more <+: ctx.unread) (hfill : Ends (Scan.fill (c :: more)) ctx [] [] (c :: more) [])
    (hfinish : ∀ ctx' : Context, ctx'.start = ctx.start → ctx'.held = c :: more →
      Ends (finishNumber (Lexeme.number (c :: ctx.unread)).complete) ctx' value [] held ds) :
    Ends (number c) ctx value (more ++ Piece.glanced (ctx.unread.drop more.length)) held ds := by
  refine Ends.ofContext ?_
  dsimp only
  rw [hlexeme]
  apply hfill.bind_quiet
  intro ctx₁ h₁ hheld₁
  have hmore₁ : more <+: ctx₁.unread := by
    rw [h₁.unread_same]
    exact hmore
  have hsettle := Ends.settle c hmore₁
  rw [h₁.unread_same, hheld₁] at hsettle
  apply hsettle.bind_still
  intro ctx₂ h₂ hheld₂
  exact hfinish ctx₂ (by rw [h₂.start, h₁.start]) hheld₂

theorem Ends.number_of_fits {c : Char} {more held : List Char} {value : Option Token}
    {ds : List Diagnostic} (hb : ctx.Bounded) (hheld : ctx.held = [])
    (hlexeme : (Lexeme.number (c :: ctx.unread)).lexeme = c :: more) (hmore : more <+: ctx.unread)
    (hfits : Piece.fits ctx.options (more.length + 1) = true)
    (hfinish : ∀ ctx' : Context, ctx'.start = ctx.start → ctx'.held = c :: more →
      Ends (finishNumber (Lexeme.number (c :: ctx.unread)).complete) ctx' value [] held ds) :
    Ends (number c) ctx value (more ++ Piece.glanced (ctx.unread.drop more.length)) held ds := by
  have hfill := Ends.fill_of_fits hb (c :: more) (by rw [hheld]; simpa using hfits)
  rw [hheld, List.nil_append] at hfill
  exact .number_of_fill hlexeme hmore hfill hfinish

theorem Ends.finishNumber_complete {c : Char} {more : List Char} (hheld : ctx.held = c :: more) :
    Ends (finishNumber true) ctx (some ((⟨.numericConstant, c, more⟩ : Cut).token ctx.start)) []
      (c :: more) [] := by
  have htoken := Ends.tokenOfBuffer (k := ⟨.numericConstant, c, more⟩) hheld
  rw [hheld] at htoken
  exact htoken.map some

/-- A number that breaks off is reported as far as it goes. -/
theorem Ends.finishNumber_broken {c : Char} {more : List Char} (hheld : ctx.held = c :: more) :
    Ends (finishNumber false) ctx none [] (c :: more)
      [⟨.fatal, ctx.start, "unknown token: " ++ String.ofList (c :: more)⟩] := by
  have hreport := Ends.report ctx .fatal ("unknown token: " ++ String.ofList (c :: more))
  have htext : ctx.buffer.text = String.ofList (c :: more) := congrArg String.ofList hheld
  rw [hheld] at hreport
  refine Ends.ofContext ?_
  rw [htext]
  exact hreport.map fun _ => none

/-- A number that does not fit is passed over and reported. -/
theorem Ends.number_of_not_fits {c : Char} {more : List Char} (hb : ctx.Bounded)
    (hheld : ctx.held = []) (hlexeme : (Lexeme.number (c :: ctx.unread)).lexeme = c :: more)
    (hmore : more <+: ctx.unread) (hfits : Piece.fits ctx.options (more.length + 1) = false) :
    let skipped := Piece.overlong (ctx.options.lexemeLimit.getD 0) ctx.unread
    ∃ held, Ends (number c) ctx none
      (skipped ++ Piece.glanced (ctx.unread.drop skipped.length)) held
      [(Piece.tooLong ctx.options).diagnostic ctx.start] := by
  intro skipped
  obtain ⟨l, hl, hlt, hfill⟩ :=
    Ends.fill_of_not_fits hb (c :: more) (by rw [hheld]; simpa using hfits)
  rw [hheld] at hfill hlt
  simp only [List.length_nil, Nat.sub_zero, List.nil_append, List.length_cons] at hfill hlt
  have hroom : l ≤ ctx.unread.length := by
    have := hmore.length_le
    omega
  have hlimit : ctx.options.lexemeLimit.getD 0 = l := by rw [hl]; rfl
  -- As many characters are read again as were stored, which leaves what found no room read too.
  obtain ⟨x, left, hleft⟩ : ∃ x left, (c :: more).drop l = x :: left :=
    List.exists_cons_of_length_pos (by simp; omega)
  have hcount : (more.length + 1) - (left.length + 1) = l := by
    have := congrArg List.length hleft
    simp only [List.length_drop, List.length_cons] at this
    omega
  rw [hleft] at hfill
  refine ⟨(c :: more).take l, Ends.ofContext ?_⟩
  dsimp only
  rw [hlexeme]
  apply hfill.bind_quiet
  intro ctx₁ h₁ hheld₁
  have hadvance := Ends.advance ctx₁ l
  rw [h₁.unread_same, hheld₁] at hadvance
  show Ends (do Scan.advance ((more.length + 1) - (left.length + 1)); Scan.skipRest
                Scan.reportTooLong; return none) ctx₁ _ _ _ _
  rw [hcount]
  have hseg : skipped ++ Piece.glanced (ctx.unread.drop skipped.length) =
      ctx.unread.take l ++ (Lexeme.numberTail none (ctx.unread.drop l) ++ Piece.glanced
        ((ctx.unread.drop l).drop (Lexeme.numberTail none (ctx.unread.drop l)).length)) := by
    have hskipped : skipped = ctx.unread.take l ++ Lexeme.numberTail none (ctx.unread.drop l) := by
      simp only [skipped, Piece.overlong, hlimit]
    rw [hskipped, List.append_assoc, List.length_append, List.length_take_of_le hroom,
      List.drop_drop]
  rw [hseg]
  apply hadvance.bind
  intro ctx₂ h₂ hheld₂
  have hskip := Ends.skipRest ctx₂
  rw [← h₁.unread_same] at h₂
  rw [h₂.unread_of_take, h₁.unread_same, hheld₂] at hskip
  apply hskip.bind_still
  intro ctx₃ h₃ hheld₃
  have hbounded := h₃.bounded (h₂.bounded (h₁.bounded hb))
  have hreport := Ends.reportTooLong hbounded
  rw [h₃.start, h₂.start, h₁.start, h₃.options, h₂.options, h₁.options, hheld₃] at hreport
  exact hreport.map fun _ => none

/-- **The routine for numbers makes the piece of a number.** -/
theorem makes_number {c : Char} (hb : ctx.Bounded) (hheld : ctx.held = []) (hc : c.isDigit = true) :
    Makes Option.toList (number c) ctx (Piece.number ctx.options c ctx.unread) := by
  obtain ⟨more, hlexeme, hmore⟩ := Lexeme.number_eq_cons hc ctx.unread
  unfold Piece.number
  dsimp only
  rw [hlexeme, List.length_cons, List.tail_cons]
  cases hfits : Piece.fits ctx.options (more.length + 1) with
  | true =>
    rw [if_pos rfl]
    cases hcomplete : (Lexeme.number (c :: ctx.unread)).complete with
    | true =>
      rw [if_pos rfl]
      refine ⟨some ((⟨.numericConstant, c, more⟩ : Cut).token ctx.start), c :: more, ?_, rfl⟩
      apply Ends.number_of_fits hb hheld hlexeme hmore hfits
      intro ctx' hstart hheld'
      rw [hcomplete, ← hstart]
      exact .finishNumber_complete hheld'
    | false =>
      rw [if_neg Bool.false_ne_true]
      refine ⟨none, c :: more, ?_, rfl⟩
      apply Ends.number_of_fits hb hheld hlexeme hmore hfits
      intro ctx' hstart hheld'
      rw [hcomplete, ← hstart]
      exact .finishNumber_broken hheld'
  | false =>
    obtain ⟨held, hends⟩ := Ends.number_of_not_fits hb hheld hlexeme hmore hfits
    rw [if_neg Bool.false_ne_true]
    exact ⟨_, held, hends, rfl⟩

end CLexer.Scan
