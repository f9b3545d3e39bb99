import CLexer.Proofs.Position
import CLexer.Proofs.Scan.Punctuation

/-!
# One step of a scanner

Every routine makes its piece, so a step makes the piece that `Piece.of` tells, and this is where the
scanner and the rules meet. Nothing behind this file looks into a routine again: what a step does is
read off `exists_step`, and that the last one sees the end off `exists_step_end`.

A step is the only thing that moves the start of a token and empties the buffer. It does both behind
its first character, and a blank does neither. That is why the tokens and diagnostics of a step are
told by the position of its first character, whatever the context held before.
-/

set_option autoImplicit false

namespace CLexer

open Event CLexer.Text

namespace Scan

variable {ctx : Context}

/-- **What starts with a character that is no blank makes its piece.** -/
theorem makes_readLexeme (c : Char) (hr : ctx.Ready) (hheld : ctx.held = []) :
    Makes (Yield.tokens ctx.start) (readLexeme c) ctx
      (Piece.lexeme ctx.tables ctx.options c ctx.unread) := by
  unfold readLexeme Piece.lexeme
  by_cases hliteral : isLiteralStart c = true
  · rw [if_pos hliteral, if_pos hliteral]
    unfold literal
    by_cases hchar : c = apostrophe
    · rw [if_pos hchar, if_pos hchar]
      exact (makes_charConstant hr.toBounded hheld).map (tokens_ofOption ctx.start)
    rw [if_neg hchar, if_neg hchar]
    by_cases hstring : c = doubleQuote
    · rw [if_pos hstring, if_pos hstring]
      exact (makes_stringConstant hr.toBounded hheld).map (tokens_ofOption ctx.start)
    · rw [if_neg hstring, if_neg hstring]
      have hdigit : c.isDigit = true := by simpa [isLiteralStart, hchar, hstring] using hliteral
      exact (makes_number hr.toBounded hheld hdigit).map (tokens_ofOption ctx.start)
  rw [if_neg hliteral, if_neg hliteral]
  by_cases hword : isWordStart c = true
  · rw [if_pos hword, if_pos hword]
    exact (makes_word hr.toBounded hheld (isWordChar_of_isWordStart hword)).map fun _ => rfl
  rw [if_neg hword, if_neg hword]
  by_cases hpunctuation : isPunctuation c = true
  · rw [if_pos hpunctuation, if_pos hpunctuation]
    exact makes_punctuation c hr hheld
  · rw [if_neg hpunctuation, if_neg hpunctuation]
    exact ⟨.nothing, ctx.held, (Ends.report ctx _ _).map fun _ => Yield.nothing, rfl⟩

end Scan

namespace Context

variable {ctx : Context} {c : Char} {rest : List Char}

/-! ## What a step does -/

/-- The context behind a step: it has read `seg`, and a next step can start from it. -/
structure Passes (ctx : Context) (seg : List Char) (ctx' : Context) : Prop where
  reads : ctx.cursor.Reads seg ctx'.cursor
  ready : ctx'.Ready
  tables : ctx'.tables = ctx.tables
  options : ctx'.options = ctx.options

theorem Passes.trans {seg seg' : List Char} {ctx' ctx'' : Context} (h : ctx.Passes seg ctx')
    (h' : ctx'.Passes seg' ctx'') : ctx.Passes (seg ++ seg') ctx'' where
  reads := h.reads.trans h'.reads
  ready := h'.ready
  tables := h'.tables.trans h.tables
  options := h'.options.trans h.options

theorem Passes.of_moves {seg : List Char} {ctx' : Context} (hr : ctx.Ready)
    (h : ctx.Moves seg ctx') : ctx.Passes seg ctx' :=
  ⟨h.reads, h.ready hr, h.tables, h.options⟩

theorem Passes.next (hr : ctx.Ready) (hu : ctx.unread = c :: rest) :
    ctx.Passes [c] { ctx with cursor := ctx.cursor.next.2 } :=
  .of_moves hr (.of_reads (.next_cons hu))

theorem Passes.begin (hr : ctx.Ready) :
    ctx.Passes [] { ctx with buffer := ctx.buffer.reset, start := ctx.cursor.position } :=
  ⟨.refl _, ⟨⟨hr.sound.reset, hr.limit⟩, hr.depth⟩, rfl, rfl⟩

theorem exists_stepFrom (hr : ctx.Ready) (c : Char) :
    let p := Piece.of ctx.tables ctx.options c ctx.unread
    ∃ ctx' es y, Scan.stepFrom c ctx = ⟨ctx', es, .ok y⟩ ∧ ctx.Passes p.more ctx' ∧
      y.tokens ctx'.start = p.tokens ctx.cursor.position ∧
      reports es = p.diagnostics ctx.cursor.position ∧ tokens es = [] := by
  unfold Scan.stepFrom Piece.of
  by_cases hblank : isBlank c = true
  · rw [if_pos hblank, if_pos hblank]
    exact ⟨ctx, [], .nothing, rfl, .of_moves hr (.refl ctx), rfl, rfl, rfl⟩
  · rw [if_neg hblank, if_neg hblank]
    -- The routine starts with an empty buffer and with the token at the last character read.
    have hbegin := Passes.begin hr
    obtain ⟨y, held, ⟨ctx', es, hrun, hmoves, -, hreports, htokens⟩, hview⟩ :=
      Scan.makes_readLexeme c hbegin.ready rfl
    refine ⟨ctx', es, y, ?_, hbegin.trans (.of_moves hbegin.ready hmoves), ?_, hreports, htokens⟩
    · show Scan.andThen Scan.begin (fun _ => Scan.readLexeme c) ctx = _
      simp only [Scan.andThen, Scan.begin, hrun, List.nil_append]
    · rw [hmoves.start]
      exact hview

theorem step_of_cons (hu : ctx.unread = c :: rest) :
    Scan.step ctx = (do return some (← Scan.stepFrom c) : Scan (Option Yield))
      { ctx with cursor := ctx.cursor.next.2 } := by
  have hahead : ctx.cursor.ahead = c :: rest := hu
  simp [Scan.step, bind, Scan.andThen, Scan.next, Cursor.next, hahead]

/-- **A step makes the piece at the front of the text.** -/
theorem exists_step (hr : ctx.Ready) (hu : ctx.unread = c :: rest) :
    let p := Piece.of ctx.tables ctx.options c rest
    let start := (ctx.cursor.place.step c).position
    ∃ ctx' es y, Scan.step ctx = ⟨ctx', es, .ok (some y)⟩ ∧ ctx.Passes (c :: p.more) ctx' ∧
      y.tokens ctx'.start = p.tokens start ∧ reports es = p.diagnostics start ∧ tokens es = [] := by
  intro p start
  have hnext := Cursor.next_of_cons (show ctx.cursor.ahead = c :: rest from hu)
  have hpasses := Passes.next hr hu
  have hfrom := exists_stepFrom hpasses.ready c
  have hunread : ({ ctx with cursor := ctx.cursor.next.2 } : Context).unread = rest := by
    rw [hnext]
    rfl
  have hposition : ctx.cursor.next.2.position = start := by
    rw [hnext]
    rfl
  rw [hunread, hposition] at hfrom
  obtain ⟨ctx', es, y, hrun, hpasses', hview, hreports, htokens⟩ := hfrom
  refine ⟨ctx', es, y, ?_, hpasses.trans hpasses', hview, hreports, htokens⟩
  rw [step_of_cons hu]
  show Scan.andThen (Scan.stepFrom c) (fun y => pure (some y)) _ = _
  simp only [Scan.andThen, hrun]
  show Outcome.mk ctx' (es ++ []) (.ok (some y)) = _
  rw [List.append_nil]

theorem step_of_nil (hu : ctx.unread = []) :
    Scan.step ctx = ⟨{ ctx with cursor := ctx.cursor.next.2 },
      if ctx.cursor.ended then [] else [.textEnd], .ok none⟩ := by
  have hahead : ctx.cursor.ahead = [] := hu
  cases hended : ctx.cursor.ended <;>
    simp [Scan.step, bind, Scan.andThen, Scan.next, Cursor.next, hahead, hended, pure]

/-- The step at the end of the text sees the end, and that is all it does. -/
theorem exists_step_end (hr : ctx.Ready) (hu : ctx.unread = []) :
    ∃ ctx' es, Scan.step ctx = ⟨ctx', es, .ok none⟩ ∧ ctx.Passes [] ctx' ∧
      ctx'.cursor.ended = true ∧ reports es = [] ∧ tokens es = [] := by
  refine ⟨_, _, step_of_nil hu, .of_moves hr (.of_reads (.next_nil hu)), ?_, ?_⟩
  · rw [Cursor.next_of_nil hu]
  · split <;> exact ⟨rfl, rfl⟩

end Context

end CLexer
