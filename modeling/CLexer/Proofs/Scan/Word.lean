import CLexer.Proofs.Scan.Ends

/-!
# Words, as they are scanned

The routine for words reads the whole word and keeps a start of it. How much is kept does not touch
how much is read, and what is kept always fits the buffer, because a word may never be longer than a
lexeme.
-/

set_option autoImplicit false

namespace CLexer.Scan

open CLexer.Text

variable {ctx : Context}

/-- Ending a lexeme behind its first character reads the rest of it and looks at what follows. -/
theorem Ends.settle {more : List Char} (hand : Char) (h : more <+: ctx.unread) :
    Ends (settle hand (more.length + 1)) ctx ()
      (more ++ Piece.glanced (ctx.unread.drop more.length)) ctx.held [] :=
  Ends.advance_lookAhead h

theorem take_wordLimit (options : Options) (c : Char) (cs : List Char) :
    (c :: cs).take options.wordLimit = c :: cs.take (options.wordLimit - 1) := by
  obtain ⟨n, hn⟩ := Nat.exists_eq_succ_of_ne_zero (Nat.ne_of_gt options.wordLimit_pos)
  rw [hn, List.take_succ_cons, Nat.succ_sub_one]

/-- An empty buffer takes as much of a word as is kept. -/
theorem Ends.storeWord (hb : ctx.Bounded) (hheld : ctx.held = []) (whole : List Char) :
    Ends (Scan.storeCapped ctx.options.wordLimit whole) ctx () []
      (whole.take ctx.options.wordLimit) [] := by
  have hstore := Ends.storeCapped hb (by simp [hheld]) whole
  rwa [hheld] at hstore

theorem Ends.word {c : Char} (hb : ctx.Bounded) (hheld : ctx.held = []) (hc : isWordChar c = true) :
    let whole := Lexeme.word ctx.unread
    let kept := whole.take (ctx.options.wordLimit - 1)
    let kind := wordKind ctx.tables (String.ofList (c :: kept))
    Ends (word c) ctx ((⟨kind, c, kept⟩ : Cut).token ctx.start)
      (whole ++ Piece.glanced (ctx.unread.drop whole.length)) (c :: kept) [] := by
  intro whole kept kind
  refine Ends.ofContext ?_
  rw [Lexeme.word_cons hc]
  have hstore := Ends.storeWord hb hheld (c :: whole)
  rw [take_wordLimit] at hstore
  apply hstore.bind_quiet
  intro ctx₁ h₁ hheld₁
  have hwhole : whole <+: ctx₁.unread := by
    rw [h₁.unread_same]
    exact Lexeme.word_isPrefix _
  have hsettle := Ends.settle c hwhole
  rw [h₁.unread_same, hheld₁] at hsettle
  apply hsettle.bind_still
  intro ctx₂ h₂ hheld₂
  apply Ends.ofContext
  have htext : ctx₂.buffer.text = String.ofList (c :: kept) := congrArg String.ofList hheld₂
  have htoken := Ends.tokenOfBuffer (k := ⟨kind, c, kept⟩) hheld₂
  rw [h₂.start, h₁.start, hheld₂] at htoken
  rw [htext]
  exact htoken

/-- **The routine for words makes the piece of a word.** -/
theorem makes_word {c : Char} (hb : ctx.Bounded) (hheld : ctx.held = [])
    (hc : isWordChar c = true) :
    Makes (fun t => [t]) (word c) ctx (Piece.word ctx.tables ctx.options c ctx.unread) :=
  ⟨_, _, Ends.word hb hheld hc, rfl⟩

end CLexer.Scan
