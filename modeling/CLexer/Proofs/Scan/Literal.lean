import CLexer.Proofs.Scan.Number

/-!
# Literals, as they are scanned

A literal is read to its end in any case: how much of the text it takes is told by the text alone,
and the buffer only decides what becomes of it. It is stored with both quotes, so it fits if
`Piece.storedLength` does, and an opening quote always fits.
-/

set_option autoImplicit false

namespace CLexer.Scan

open CLexer.Text CLexer.Lexeme

variable {ctx : Context} {quote : Char}

/-! ## Room for a literal -/

theorem fits_of_le {options : Options} {n k : Nat} (hle : n ≤ k)
    (h : Piece.fits options k = true) : Piece.fits options n = true := by
  unfold Piece.fits at h ⊢
  split at h
  · rfl
  · simp only [decide_eq_true_eq] at h ⊢
    omega

theorem fits_one (options : Options) : Piece.fits options 1 = true := by
  unfold Piece.fits
  split
  · rfl
  · rename_i l hl
    have := options.wordLimit_le l hl
    have := options.wordLimit_pos
    simp only [decide_eq_true_eq]
    omega

theorem fits_of_unlimited {options : Options} (h : options.lexemeLimit = none) (n : Nat) :
    Piece.fits options n = true := by
  unfold Piece.fits
  rw [h]

/-- There is room for so many characters behind those that are stored. -/
def HasRoom (ctx : Context) (n : Nat) : Prop :=
  Piece.fits ctx.options (ctx.held.length + n) = true

theorem hasRoom_zero (hb : ctx.Bounded) : HasRoom ctx 0 := by
  have hle := length_held_le hb
  unfold HasRoom Piece.fits
  cases hl : ctx.options.lexemeLimit with
  | none => rfl
  | some l => exact decide_eq_true (hle l hl)

/-- Reading takes no room. -/
theorem hasRoom_of_moves {ctx' : Context} {seg : List Char} (h : ctx.Moves seg ctx')
    (hheld : ctx'.held = ctx.held) (n : Nat) : HasRoom ctx' n ↔ HasRoom ctx n := by
  rw [HasRoom, HasRoom, h.options, hheld]

/-! ## The loops, by what is next -/

theorem skipInside_lone (hquote : quote ≠ '\\') :
    skipInside quote ['\\'] = (do
      discard next
      discard next) := by
  simp [skipInside, hquote.symm]

theorem skipInside_escape (hquote : quote ≠ '\\') (c : Char) (rest : List Char) :
    skipInside quote ('\\' :: c :: rest) = (do
      discard next
      discard next
      skipInside quote rest) := by
  simp [skipInside, hquote.symm]

theorem skipInside_end {c : Char} (hc : c = quote ∨ c = '\r' ∨ c = '\n') (rest : List Char) :
    skipInside quote (c :: rest) = (do
      discard next
      pure ()) := by
  rw [skipInside.eq_def]
  simp [hc]

theorem skipInside_plain {c : Char} (hc : ¬ (c = quote ∨ c = '\r' ∨ c = '\n')) (hne : c ≠ '\\')
    (rest : List Char) :
    skipInside quote (c :: rest) = (do
      discard next
      skipInside quote rest) := by
  rw [skipInside.eq_def]
  simp only [if_neg hc, if_neg hne]

theorem inside_lone (hquote : quote ≠ '\\') :
    inside quote ['\\'] = (do
      discard next
      discard next
      return .unterminated) := by
  simp [inside, hquote.symm]

theorem inside_escape (hquote : quote ≠ '\\') (c : Char) (rest : List Char) :
    inside quote ('\\' :: c :: rest) = (do
      discard next
      discard next
      if ← putAll ['\\', c] then inside quote rest else giveUp quote rest) := by
  simp [inside, hquote.symm]

theorem inside_closing (rest : List Char) :
    inside quote (quote :: rest) = (do
      discard next
      if ← putAll [quote] then return .closed else return .tooLong) := by
  rw [inside.eq_def, ← put_eq_putAll]
  simp

theorem inside_lineBreak {c : Char} (hne : c ≠ quote) (hc : c = '\r' ∨ c = '\n')
    (rest : List Char) :
    inside quote (c :: rest) = (do
      discard next
      return .unterminated) := by
  rw [inside.eq_def]
  simp only [if_neg hne, if_pos hc]

theorem inside_plain {c : Char} (hc : ¬ (c = quote ∨ c = '\r' ∨ c = '\n')) (hne : c ≠ '\\')
    (rest : List Char) :
    inside quote (c :: rest) = (do
      discard next
      if ← putAll [c] then inside quote rest else giveUp quote rest) := by
  rw [not_or] at hc
  rw [inside.eq_def, ← put_eq_putAll]
  simp only [if_neg hc.1, if_neg hc.2, if_neg hne]

/-! ## Reading a literal -/

/-- What is stored of a literal behind its opening quote, if there is room for it. -/
def stored (quote : Char) (body : LiteralBody) : List Char :=
  body.text ++ if body.ending = .closed then [quote] else []

theorem stored_cons (quote : Char) (u : LiteralUnit) (body : LiteralBody) :
    stored quote (body.cons u) = u.text ++ stored quote body := by
  unfold stored
  rw [← List.append_assoc]
  rfl

theorem stored_nil {ending : LiteralEnd} (h : ending ≠ .closed) : stored quote ⟨[], ending⟩ = [] := by
  simp [stored, LiteralBody.text, h]

theorem stored_of_closed {body : LiteralBody} (h : body.ending = .closed) :
    stored quote body = body.text ++ [quote] := by
  rw [stored, if_pos h]

theorem stored_of_open {body : LiteralBody} (h : body.ending ≠ .closed) :
    stored quote body = body.text := by
  rw [stored, if_neg h, List.append_nil]

theorem storedLength_eq (quote : Char) (body : LiteralBody) :
    Piece.storedLength body = (stored quote body).length + 1 := by
  by_cases h : body.ending = .closed
  · rw [Piece.storedLength_of_closed h, stored_of_closed h, List.length_append]
    rfl
  · rw [Piece.storedLength_of_open h, stored_of_open h]

section Steps

variable {β : Type} {b : β} {c : Char} {cs rest seg held : List Char} {ds : List Diagnostic}
  {k k' : Scan β}

theorem Ends.discard_next_cons (hu : ctx.unread = c :: rest) :
    Ends (discard Scan.next) ctx () [c] ctx.held [] := by
  have hnext := Ends.discard_next ctx
  rwa [hu] at hnext

/-- A character that is ahead is read, and the routine goes on. -/
theorem Ends.read (hu : ctx.unread = c :: rest)
    (hk : ∀ ctx', ctx.Moves [c] ctx' → ctx'.unread = rest → ctx'.held = ctx.held →
      Ends k ctx' b seg held ds) :
    Ends (do discard Scan.next; k) ctx b (c :: seg) held ds := by
  apply (Ends.discard_next_cons hu).bind
  intro ctx' hmoves hheld
  exact hk ctx' hmoves (hmoves.unread_of_append hu) hheld

theorem Ends.exists_read (hu : ctx.unread = c :: rest)
    (hk : ∀ ctx', ctx.Moves [c] ctx' → ctx'.unread = rest → ctx'.held = ctx.held →
      ∃ held, Ends k ctx' b seg held ds) :
    ∃ held, Ends (do discard Scan.next; k) ctx b (c :: seg) held ds := by
  apply (Ends.discard_next_cons hu).exists_bind
  intro ctx' hmoves hheld
  exact hk ctx' hmoves (hmoves.unread_of_append hu) hheld

theorem Ends.read_end (hu : ctx.unread = []) :
    Ends (discard Scan.next) ctx () [] ctx.held [] := by
  have hnext := Ends.discard_next ctx
  rwa [hu] at hnext

/-- Storing that succeeds goes on with what is to be stored behind it. -/
theorem Ends.put_then (more : List Char) (hb : ctx.Bounded) (hroom : HasRoom ctx (cs ++ more).length)
    (hk : ∀ ctx', ctx'.Bounded → ctx'.unread = ctx.unread → HasRoom ctx' more.length →
      Ends k ctx' b seg (ctx'.held ++ more) ds) :
    Ends (do if ← putAll cs then k else k') ctx b seg (ctx.held ++ (cs ++ more)) ds := by
  rw [HasRoom, List.length_append, ← Nat.add_assoc] at hroom
  apply (Ends.putAll_of_fits hb cs (fits_of_le (Nat.le_add_right _ _) hroom)).bind_quiet
  intro ctx' hmoves hheld
  rw [← List.append_assoc, ← hheld]
  refine hk ctx' (hmoves.bounded hb) hmoves.unread_same ?_
  rw [HasRoom, hmoves.options, hheld, List.length_append]
  exact hroom

/-- Where not everything finds room, this does not, or something behind it. -/
theorem Ends.put_or (more : List Char) (hb : ctx.Bounded)
    (hroom : ¬ HasRoom ctx (cs ++ more).length)
    (hk : ∀ ctx', ctx'.Bounded → ctx'.unread = ctx.unread → ¬ HasRoom ctx' more.length →
      ∃ held, Ends k ctx' b seg held ds)
    (hk' : ∀ ctx', ctx'.unread = ctx.unread → Ends k' ctx' b seg ctx'.held ds) :
    ∃ held, Ends (do if ← putAll cs then k else k') ctx b seg held ds := by
  cases hfits : Piece.fits ctx.options (ctx.held.length + cs.length) with
  | false =>
    obtain ⟨held, hput⟩ := Ends.putAll_of_not_fits hb cs hfits
    exact ⟨held, hput.bind_quiet fun ctx' hmoves hheld => hheld ▸ hk' ctx' hmoves.unread_same⟩
  | true =>
    apply (Ends.putAll_of_fits hb cs hfits).exists_bind
    intro ctx' hmoves hheld
    refine hk ctx' (hmoves.bounded hb) hmoves.unread_same ?_
    rwa [HasRoom, hmoves.options, hheld, List.length_append, Nat.add_assoc, ← List.length_append]

end Steps

/-- **The loop that stores nothing reads to the end of the literal.** -/
theorem Ends.skipInside (hquote : quote ≠ '\\') {text : List Char} (hu : ctx.unread = text) :
    Ends (skipInside quote text) ctx () (text.take (literalBody quote text).width) ctx.held
      [] := by
  -- By what is ahead: the end of the text, a backslash in front of it, an escape, the quote, a line
  -- break, or any other character.
  fun_induction literalBody quote text generalizing ctx with
  | case1 => exact .read_end hu
  | case2 =>
    rw [skipInside_lone hquote]
    apply Ends.read hu
    intro ctx₁ _ hu₁ hheld₁
    rw [← hheld₁]
    exact .read_end hu₁
  | case3 c rest ih =>
    rw [skipInside_escape hquote, take_width_escape]
    apply Ends.read hu
    intro ctx₁ _ hu₁ hheld₁
    apply Ends.read hu₁
    intro ctx₂ _ hu₂ hheld₂
    rw [← hheld₁, ← hheld₂]
    exact ih hu₂
  | case4 rest =>
    rw [skipInside_end (.inl rfl)]
    apply Ends.read hu
    intro ctx₁ _ _ hheld₁
    rw [← hheld₁]
    exact .pure () ctx₁
  | case5 c rest _ _ _ hbreak =>
    rw [skipInside_end (.inr hbreak)]
    apply Ends.read hu
    intro ctx₁ _ _ hheld₁
    rw [← hheld₁]
    exact .pure () ctx₁
  | case6 c rest hlone hescape hne hbreak ih =>
    rw [skipInside_plain (by simp [hne, hbreak]) (ne_backslash hlone hescape), take_width_plain]
    apply Ends.read hu
    intro ctx₁ _ hu₁ hheld₁
    rw [← hheld₁]
    exact ih hu₁

theorem Ends.giveUp (hquote : quote ≠ '\\') {text : List Char} (hu : ctx.unread = text) :
    Ends (giveUp quote text) ctx .tooLong (text.take (literalBody quote text).width) ctx.held [] :=
  (Ends.skipInside hquote hu).map fun _ => LiteralOutcome.tooLong

/-- What comes of a literal that is not too long, by what ends it. -/
def LiteralOutcome.of : LiteralEnd → LiteralOutcome
  | .closed => .closed
  | _ => .unterminated

/-- **A literal that fits is read to its end and stored.** -/
theorem Ends.inside_of_room (hquote : quote ≠ '\\') {text : List Char} (hb : ctx.Bounded)
    (hu : ctx.unread = text)
    (hroom : HasRoom ctx (stored quote (literalBody quote text)).length) :
    Ends (inside quote text) ctx (.of (literalBody quote text).ending)
      (text.take (literalBody quote text).width)
      (ctx.held ++ stored quote (literalBody quote text)) [] := by
  fun_induction literalBody quote text generalizing ctx with
  | case1 =>
    rw [stored_nil (by decide), List.append_nil]
    exact (Ends.read_end hu).map fun _ => LiteralOutcome.unterminated
  | case2 =>
    rw [inside_lone hquote, stored_nil (by decide), List.append_nil]
    apply Ends.read hu
    intro ctx₁ _ hu₁ hheld₁
    rw [← hheld₁]
    exact (Ends.read_end hu₁).map fun _ => LiteralOutcome.unterminated
  | case3 c rest ih =>
    rw [stored_cons] at hroom ⊢
    rw [inside_escape hquote, take_width_escape]
    apply Ends.read hu
    intro ctx₁ h₁ hu₁ hheld₁
    apply Ends.read hu₁
    intro ctx₂ h₂ hu₂ hheld₂
    rw [← hasRoom_of_moves h₁ hheld₁, ← hasRoom_of_moves h₂ hheld₂] at hroom
    rw [← hheld₁, ← hheld₂]
    apply Ends.put_then _ (h₂.bounded (h₁.bounded hb)) hroom
    intro ctx₃ hb₃ hu₃ hroom₃
    exact ih hb₃ (hu₃.trans hu₂) hroom₃
  | case4 rest =>
    rw [inside_closing]
    apply Ends.read hu
    intro ctx₁ h₁ _ hheld₁
    rw [← hasRoom_of_moves h₁ hheld₁] at hroom
    rw [← hheld₁]
    apply Ends.put_then [] (h₁.bounded hb) hroom
    intro ctx₂ _ _ _
    rw [List.append_nil]
    exact .pure _ ctx₂
  | case5 c rest _ _ hne hbreak =>
    rw [inside_lineBreak hne hbreak, stored_nil (by decide), List.append_nil]
    apply Ends.read hu
    intro ctx₁ _ _ hheld₁
    rw [← hheld₁]
    exact .pure _ ctx₁
  | case6 c rest hlone hescape hne hbreak ih =>
    rw [stored_cons] at hroom ⊢
    rw [inside_plain (by simp [hne, hbreak]) (ne_backslash hlone hescape), take_width_plain]
    apply Ends.read hu
    intro ctx₁ h₁ hu₁ hheld₁
    rw [← hasRoom_of_moves h₁ hheld₁] at hroom
    rw [← hheld₁]
    apply Ends.put_then _ (h₁.bounded hb) hroom
    intro ctx₂ hb₂ hu₂ hroom₂
    exact ih hb₂ (hu₂.trans hu₁) hroom₂

/-- **A literal that does not fit is read to its end all the same**, whichever of its characters finds
no room: one of the inside hands over to the loop that stores nothing, and the closing quote is the
last one to be read. -/
theorem Ends.inside_without_room (hquote : quote ≠ '\\') {text : List Char} (hb : ctx.Bounded)
    (hu : ctx.unread = text)
    (hroom : ¬ HasRoom ctx (stored quote (literalBody quote text)).length) :
    ∃ held, Ends (inside quote text) ctx .tooLong (text.take (literalBody quote text).width) held
      [] := by
  fun_induction literalBody quote text generalizing ctx with
  | case1 => exact absurd (hasRoom_zero hb) hroom
  | case2 => exact absurd (hasRoom_zero hb) hroom
  | case3 c rest ih =>
    rw [stored_cons] at hroom
    rw [inside_escape hquote, take_width_escape]
    apply Ends.exists_read hu
    intro ctx₁ h₁ hu₁ hheld₁
    apply Ends.exists_read hu₁
    intro ctx₂ h₂ hu₂ hheld₂
    rw [← hasRoom_of_moves h₁ hheld₁, ← hasRoom_of_moves h₂ hheld₂] at hroom
    apply Ends.put_or _ (h₂.bounded (h₁.bounded hb)) hroom
    · intro ctx₃ hb₃ hu₃ hroom₃
      exact ih hb₃ (hu₃.trans hu₂) hroom₃
    · intro ctx₃ hu₃
      exact .giveUp hquote (hu₃.trans hu₂)
  | case4 rest =>
    rw [inside_closing]
    apply Ends.exists_read hu
    intro ctx₁ h₁ _ hheld₁
    rw [← hasRoom_of_moves h₁ hheld₁] at hroom
    apply Ends.put_or [] (h₁.bounded hb) hroom
    · intro ctx₂ hb₂ _ hroom₂
      exact absurd (hasRoom_zero hb₂) hroom₂
    · intro ctx₂ _
      exact .pure _ ctx₂
  | case5 => exact absurd (hasRoom_zero hb) hroom
  | case6 c rest hlone hescape hne hbreak ih =>
    rw [stored_cons] at hroom
    rw [inside_plain (by simp [hne, hbreak]) (ne_backslash hlone hescape), take_width_plain]
    apply Ends.exists_read hu
    intro ctx₁ h₁ hu₁ hheld₁
    rw [← hasRoom_of_moves h₁ hheld₁] at hroom
    apply Ends.put_or _ (h₁.bounded hb) hroom
    · intro ctx₂ hb₂ hu₂ hroom₂
      exact ih hb₂ (hu₂.trans hu₁) hroom₂
    · intro ctx₂ hu₂
      exact .giveUp hquote (hu₂.trans hu₁)

/-! ## A whole literal -/

/-- The opening quote always finds room. -/
theorem Ends.put_opening (hb : ctx.Bounded) (hheld : ctx.held = []) (quote : Char) :
    Ends (put quote) ctx true [] [quote] [] := by
  have hput := Ends.putAll_of_fits hb [quote]
    (by rw [hheld, List.length_nil, Nat.zero_add]; exact fits_one _)
  rwa [hheld, List.nil_append, ← put_eq_putAll] at hput

/-- Behind the opening quote there is room for what is to be stored exactly if the literal fits. -/
theorem hasRoom_iff_fits {ctx' : Context} (h : ctx.Moves [] ctx') (hheld : ctx'.held = [quote])
    (body : LiteralBody) :
    HasRoom ctx' (stored quote body).length ↔
      Piece.fits ctx.options (Piece.storedLength body) = true := by
  rw [HasRoom, hheld, h.options, storedLength_eq quote, List.length_singleton, Nat.add_comm]

/-- A literal that fits is stored with its opening quote. -/
theorem Ends.quoted_of_fits (hquote : quote ≠ '\\') (hb : ctx.Bounded) (hheld : ctx.held = [])
    (hfits : Piece.fits ctx.options (Piece.storedLength (literalBody quote ctx.unread)) = true) :
    Ends (quoted quote) ctx (.of (literalBody quote ctx.unread).ending)
      (ctx.unread.take (literalBody quote ctx.unread).width)
      (quote :: stored quote (literalBody quote ctx.unread)) [] := by
  apply (Ends.put_opening hb hheld quote).bind_quiet
  intro ctx₁ h₁ hheld₁
  have hinside := Ends.inside_of_room hquote (h₁.bounded hb) h₁.unread_same
    ((hasRoom_iff_fits h₁ hheld₁ _).mpr hfits)
  rw [hheld₁] at hinside
  apply Ends.ofContext
  rw [h₁.unread_same]
  exact hinside

/-- A literal that does not fit is too long. -/
theorem Ends.quoted_tooLong (hquote : quote ≠ '\\') (hb : ctx.Bounded) (hheld : ctx.held = [])
    (hfits : Piece.fits ctx.options (Piece.storedLength (literalBody quote ctx.unread)) = false) :
    ∃ held, Ends (quoted quote) ctx .tooLong
      (ctx.unread.take (literalBody quote ctx.unread).width) held [] := by
  apply (Ends.put_opening hb hheld quote).exists_bind
  intro ctx₁ h₁ hheld₁
  obtain ⟨held, hinside⟩ := Ends.inside_without_room hquote (h₁.bounded hb) h₁.unread_same
    (mt (hasRoom_iff_fits h₁ hheld₁ _).mp (by simp [hfits]))
  refine ⟨held, Ends.ofContext ?_⟩
  rw [h₁.unread_same]
  exact hinside

/-- What comes of reading a literal is decided by its room first, and then by what ends it. -/
theorem result_quoted (hquote : quote ≠ '\\') (hb : ctx.Bounded) (hheld : ctx.held = []) :
    let body := literalBody quote ctx.unread
    (quoted quote ctx).result = .ok
      (if Piece.fits ctx.options (Piece.storedLength body) = true then .of body.ending
      else .tooLong) := by
  intro body
  cases hfits : Piece.fits ctx.options (Piece.storedLength body) with
  | false =>
    obtain ⟨held, hquoted⟩ := Ends.quoted_tooLong hquote hb hheld hfits
    exact hquoted.result_eq
  | true => exact (Ends.quoted_of_fits hquote hb hheld hfits).result_eq

/-! ## What becomes of a literal -/

theorem makes_finishString {inside : List Char}
    (hheld : ctx.held = doubleQuote :: (inside ++ [doubleQuote])) :
    Makes Option.toList (do return some (← tokenOfBuffer .stringConstant)) ctx
      { cuts := (Piece.closedString inside).1
        remarks := (Piece.closedString inside).2 } := by
  let cut : Cut := ⟨.stringConstant, doubleQuote, inside ++ [doubleQuote]⟩
  exact ⟨_, _, (Ends.tokenOfBuffer (k := cut) hheld).map some, rfl⟩

/-- A character constant becomes a token if it has one unit, or is kept with more. -/
theorem makes_finishChar {inside : List Char}
    (hheld : ctx.held = apostrophe :: (inside ++ [apostrophe])) :
    Makes Option.toList finishChar ctx
      { cuts := (Piece.closedChar ctx.options inside).1
        remarks := (Piece.closedChar ctx.options inside).2 } := by
  let cut : Cut := ⟨.charConstant, apostrophe, inside ++ [apostrophe]⟩
  have htext : ctx.buffer.chars.toList = cut.chars := hheld
  have hlength : cut.chars.length = inside.length + 2 := by simp [cut, Cut.chars]
  unfold Piece.closedChar
  dsimp only
  by_cases hempty : inside = []
  · rw [if_pos hempty]
    refine ⟨none, ctx.held, Ends.ofContext ?_, rfl⟩
    dsimp only
    rw [htext, hlength, hempty]
    exact (Ends.report ctx .error _).map fun _ => none
  · have hne : ¬ inside.length + 2 = 2 := by simpa using hempty
    rw [if_neg hempty]
    cases hmulti : isMultichar cut.chars with
    | false =>
      refine ⟨some (cut.token ctx.start), ctx.held, Ends.ofContext ?_, rfl⟩
      dsimp only
      rw [htext, hlength, if_neg hne, hmulti]
      exact (Ends.tokenOfBuffer (k := cut) hheld).map some
    | true =>
      cases hkeep : ctx.options.keepMultichar with
      | false =>
        refine ⟨none, ctx.held, Ends.ofContext ?_, rfl⟩
        dsimp only
        rw [htext, hlength, if_neg hne, hmulti, hkeep]
        exact (Ends.report ctx .warning _).map fun _ => none
      | true =>
        refine ⟨some (cut.token ctx.start), ctx.held, Ends.ofContext ?_, rfl⟩
        dsimp only
        rw [htext, hlength, if_neg hne, hmulti, hkeep]
        apply Ends.report_then .warning _
        intro ctx₁ h₁ hheld₁
        rw [← hheld₁, ← h₁.start]
        exact (Ends.tokenOfBuffer (k := cut) (hheld₁.trans hheld)).map some

/-! ## Any literal -/

theorem makes_unterminated (ctx : Context) (finish : Scan (Option Token)) :
    Makes Option.toList (finishLiteral quote finish .unterminated) ctx
      { remarks := [⟨.error, unterminatedMessage quote⟩] } :=
  ⟨none, ctx.held, (Ends.report ctx .error _).map fun _ => none, rfl⟩

theorem makes_tooLong (hb : ctx.Bounded) (finish : Scan (Option Token)) :
    Makes Option.toList (finishLiteral quote finish .tooLong) ctx
      { remarks := [Piece.tooLong ctx.options] } :=
  ⟨none, ctx.held, (Ends.reportTooLong hb).map fun _ => none, rfl⟩

/-- **The routines for literals make the piece of a literal.** They differ only in what becomes of a
closed literal that fits, which is left to `finish`. -/
theorem makes_literal {finish : Scan (Option Token)}
    {closed : List Char → List Cut × List Remark} (hquote : quote ≠ '\\') (hb : ctx.Bounded)
    (hheld : ctx.held = [])
    (hfinish : ∀ (ctx' : Context) (inside : List Char), ctx'.options = ctx.options →
      ctx'.held = quote :: (inside ++ [quote]) →
      Makes Option.toList finish ctx'
        { cuts := (closed inside).1, remarks := (closed inside).2 }) :
    Makes Option.toList (do finishLiteral quote finish (← quoted quote)) ctx
      (Piece.literal ctx.options quote ctx.unread closed) := by
  unfold Piece.literal
  dsimp only
  cases hfits : Piece.fits ctx.options (Piece.storedLength (literalBody quote ctx.unread)) with
  | false =>
    obtain ⟨held, hquoted⟩ := Ends.quoted_tooLong hquote hb hheld hfits
    apply Makes.of_read hquoted
    intro ctx₁ h₁ _
    rw [← h₁.options]
    exact makes_tooLong (h₁.bounded hb) finish
  | true =>
    have hquoted := Ends.quoted_of_fits hquote hb hheld hfits
    rw [if_pos rfl]
    cases hending : (literalBody quote ctx.unread).ending with
    | closed =>
      rw [hending, stored_of_closed hending] at hquoted
      exact .of_read hquoted fun ctx₁ h₁ hheld₁ => hfinish ctx₁ _ h₁.options hheld₁
    | lineBreak | textEnd | danglingEscape =>
      rw [hending] at hquoted
      exact .of_read hquoted fun ctx₁ _ _ => makes_unterminated ctx₁ finish

theorem ne_backslash_of_quote (h : quote = apostrophe ∨ quote = doubleQuote) : quote ≠ '\\' := by
  rcases h with rfl | rfl <;> decide

theorem makes_stringConstant (hb : ctx.Bounded) (hheld : ctx.held = []) :
    Makes Option.toList stringConstant ctx
      (Piece.literal ctx.options doubleQuote ctx.unread Piece.closedString) :=
  makes_literal (by decide) hb hheld fun _ _ _ hheld' => makes_finishString hheld'

theorem makes_charConstant (hb : ctx.Bounded) (hheld : ctx.held = []) :
    Makes Option.toList charConstant ctx
      (Piece.literal ctx.options apostrophe ctx.unread (Piece.closedChar ctx.options)) := by
  apply makes_literal (by decide) hb hheld
  intro ctx' inside hoptions hheld'
  rw [← hoptions]
  exact makes_finishChar hheld'

theorem makes_quotation (hquote : quote = apostrophe ∨ quote = doubleQuote) (hb : ctx.Bounded)
    (hheld : ctx.held = []) :
    Makes Option.toList (literal quote) ctx
      (Piece.literal ctx.options quote ctx.unread (Piece.closed ctx.options quote)) := by
  rcases hquote with rfl | rfl
  · exact makes_charConstant hb hheld
  · exact makes_stringConstant hb hheld

/-! ## Where a literal leaves the context

What is made of a literal depends on its length, but not how far it is read: that is told by the text
alone (`cursor_quoted`). Finishing a literal changes nothing any more (`context_literal`). -/

section Keeps

variable {α β γ : Type} {view : Context → γ} {m : Scan α} {f : α → Scan β}

/-- The routine leaves what is seen of the context as it is, however it ends. -/
def Keeps (view : Context → γ) (m : Scan α) : Prop := ∀ ctx, view (m ctx).context = view ctx

/-- Steps that change nothing of what is seen may follow any others. -/
theorem view_bind (hf : ∀ a, Keeps view (f a)) (ctx : Context) :
    view ((m >>= f) ctx).context = view (m ctx).context := by
  show view (andThen m f ctx).context = _
  unfold andThen
  rcases m ctx with ⟨ctx', es, e | a⟩
  · rfl
  · exact hf a ctx'

theorem context_bind_of_keeps (hf : ∀ a, Keeps id (f a)) (ctx : Context) :
    ((m >>= f) ctx).context = (m ctx).context := view_bind hf ctx

theorem Keeps.bind (hm : Keeps view m) (hf : ∀ a, Keeps view (f a)) : Keeps view (m >>= f) :=
  fun ctx => (view_bind hf ctx).trans (hm ctx)

theorem Keeps.pure (a : α) : Keeps view (pure a : Scan α) := fun _ => rfl

theorem Keeps.context : Keeps view Scan.context := fun _ => rfl

theorem Keeps.report (severity : Severity) (message : String) :
    Keeps view (report severity message) := fun _ => rfl

theorem Keeps.tokenOfBuffer (kind : TokenKind) : Keeps view (tokenOfBuffer kind) := by
  intro ctx
  show view (tokenOf kind ctx.buffer.text ctx).context = view ctx
  unfold Scan.tokenOf
  split <;> rfl

theorem Keeps.put (c : Char) : Keeps Context.cursor (put c) := by
  rw [put_eq_putAll, putAll_eq_fill]
  exact fun _ => rfl

theorem Keeps.store (cs : List Char) : Keeps Context.cursor (store cs) := by
  have hfill : Keeps Context.cursor (fill cs) := fun _ => rfl
  have hfail : Keeps Context.cursor (failFull : Scan Unit) := fun _ => rfl
  refine hfill.bind fun left => ?_
  split
  · exact .pure _
  · exact hfail

theorem Keeps.storeCapped (most : Nat) (cs : List Char) :
    Keeps Context.cursor (storeCapped most cs) := .bind .context fun _ => .store _

theorem Keeps.finishChar : Keeps view finishChar := by
  refine .bind .context fun ctx => ?_
  dsimp only
  split
  · exact .bind (.report _ _) fun _ => .pure _
  · split
    · refine .bind (.report _ _) fun _ => ?_
      split
      · exact .bind (.tokenOfBuffer _) fun _ => .pure _
      · exact .pure _
    · exact .bind (.tokenOfBuffer _) fun _ => .pure _

theorem Keeps.finishLiteral {finish : Scan (Option Token)} (h : Keeps view finish)
    (outcome : LiteralOutcome) : Keeps view (finishLiteral quote finish outcome) := by
  cases outcome with
  | closed => exact h
  | unterminated => exact .bind (.report _ _) fun _ => .pure _
  | tooLong => exact .bind (.bind .context fun _ => .report _ _) fun _ => .pure _

theorem context_ofContext (f : Context → Scan β) (ctx : Context) :
    ((Scan.context >>= f) ctx).context = (f ctx ctx).context := rfl

theorem context_advance (n : Nat) (f : Unit → Scan β) (ctx : Context) :
    ((advance n >>= f) ctx).context =
      (f () { ctx with cursor := ctx.cursor.advance n }).context := rfl

/-- The rest of a routine goes on in the context that its first step has left. -/
theorem context_bind {ctx' : Context} {es : List Event} {a : α} (h : m ctx = ⟨ctx', es, .ok a⟩)
    (f : α → Scan β) : ((m >>= f) ctx).context = (f a ctx').context := by
  show (andThen m f ctx).context = _
  unfold andThen
  rw [h]

end Keeps

/-- Where the cursor stands behind the inside of a literal and what ends it. -/
def pastBody (body : LiteralBody) (cur : Cursor) : Cursor :=
  if body.ending.seesTextEnd then (cur.advance body.width).next.2 else cur.advance body.width

theorem pastBody_plain {cur : Cursor} {c : Char} {rest : List Char} (h : cur.ahead = c :: rest)
    (d : Char) (body : LiteralBody) :
    pastBody (body.cons (.plain d)) cur = pastBody body cur.next.2 := by
  have hwidth : (body.cons (.plain d)).width = body.width + 1 := by
    rw [width_cons, Nat.add_comm]
    rfl
  rw [pastBody, hwidth, Cursor.advance_succ_of_cons h]
  rfl

theorem pastBody_escape {cur : Cursor} {c d : Char} {rest : List Char}
    (h : cur.ahead = c :: d :: rest) (e : Char) (body : LiteralBody) :
    pastBody (body.cons (.escape e)) cur = pastBody body cur.next.2.next.2 := by
  have hwidth : (body.cons (.escape e)).width = body.width + 1 + 1 := by
    rw [width_cons, Nat.add_comm]
    rfl
  have hnext : cur.next.2.ahead = d :: rest := by rw [Cursor.ahead_next, h, List.tail_cons]
  rw [pastBody, hwidth, Cursor.advance_succ_of_cons h, Cursor.advance_succ_of_cons hnext]
  rfl

theorem pastBody_end {cur : Cursor} {c : Char} {rest : List Char} (h : cur.ahead = c :: rest)
    {ending : LiteralEnd} (hwidth : ending.width = 1) :
    pastBody ⟨[], ending⟩ cur = if ending.seesTextEnd then cur.next.2.next.2 else cur.next.2 := by
  have hwhole : (⟨[], ending⟩ : LiteralBody).width = 0 + 1 := congrArg (0 + ·) hwidth
  rw [pastBody, hwhole, Cursor.advance_succ_of_cons h]
  rfl

section Cursor

variable {α : Type} {m m' : Scan α} {cs text : List Char} {cur : Cursor}

theorem cursor_read (m : Scan α) (ctx : Context) :
    ((do discard next; m) ctx).context =
      (m { ctx with cursor := ctx.cursor.next.2 }).context := rfl

/-- Storing does not move the cursor, whether it succeeds or not. -/
theorem cursor_put (hm : ∀ ctx', ctx'.cursor = ctx.cursor → (m ctx').context.cursor = cur)
    (hm' : ∀ ctx', ctx'.cursor = ctx.cursor → (m' ctx').context.cursor = cur) :
    ((do if ← putAll cs then m else m') ctx).context.cursor = cur := by
  rw [putAll_eq_fill]
  show ((if (ctx.buffer.fill cs).2.isEmpty then m else m')
    { ctx with buffer := (ctx.buffer.fill cs).1 }).context.cursor = cur
  split
  · exact hm _ rfl
  · exact hm' _ rfl

/-- The loop that stores nothing stops where the literal ends. -/
theorem cursor_skipInside (hquote : quote ≠ '\\') (hu : ctx.unread = text) :
    (skipInside quote text ctx).context.cursor = pastBody (literalBody quote text) ctx.cursor := by
  fun_induction literalBody quote text generalizing ctx with
  | case1 => rfl
  | case2 =>
    rw [skipInside_lone hquote, cursor_read, pastBody_end hu rfl]
    rfl
  | case3 c rest ih =>
    rw [skipInside_escape hquote, cursor_read, cursor_read, pastBody_escape hu]
    exact ih (unread_read (unread_read hu))
  | case4 rest =>
    rw [skipInside_end (.inl rfl), cursor_read, pastBody_end hu rfl]
    rfl
  | case5 c rest _ _ _ hbreak =>
    rw [skipInside_end (.inr hbreak), cursor_read, pastBody_end hu rfl]
    rfl
  | case6 c rest hlone hescape hne hbreak ih =>
    rw [skipInside_plain (by simp [hne, hbreak]) (ne_backslash hlone hescape), cursor_read,
      pastBody_plain hu]
    exact ih (unread_read hu)

theorem cursor_giveUp (hquote : quote ≠ '\\') (hu : ctx.unread = text) :
    (giveUp quote text ctx).context.cursor = pastBody (literalBody quote text) ctx.cursor :=
  (view_bind (fun _ => .pure _) ctx).trans (cursor_skipInside hquote hu)

/-- Behind a unit the loop goes on or gives up, and either way it comes to the same place. -/
theorem cursor_put_inside (hquote : quote ≠ '\\') (hu : ctx.unread = text)
    (hinside : ∀ {ctx : Context}, ctx.unread = text →
      (inside quote text ctx).context.cursor = pastBody (literalBody quote text) ctx.cursor) :
    ((do if ← putAll cs then inside quote text else giveUp quote text) ctx).context.cursor =
      pastBody (literalBody quote text) ctx.cursor := by
  apply cursor_put
  · intro ctx' hcursor
    rw [← hcursor]
    exact hinside ((congrArg Cursor.ahead hcursor).trans hu)
  · intro ctx' hcursor
    rw [← hcursor]
    exact cursor_giveUp hquote ((congrArg Cursor.ahead hcursor).trans hu)

/-- **However much of a literal finds room, the cursor comes to the same place.** The loop that stores
stops there by itself, or hands over to the other loop on the way. -/
theorem cursor_inside (hquote : quote ≠ '\\') (hu : ctx.unread = text) :
    (inside quote text ctx).context.cursor = pastBody (literalBody quote text) ctx.cursor := by
  fun_induction literalBody quote text generalizing ctx with
  | case1 => rfl
  | case2 =>
    rw [inside_lone hquote, cursor_read, cursor_read, pastBody_end hu rfl]
    rfl
  | case3 c rest ih =>
    rw [inside_escape hquote, cursor_read, cursor_read, pastBody_escape hu]
    exact cursor_put_inside hquote (unread_read (unread_read hu)) ih
  | case4 rest =>
    rw [inside_closing, cursor_read, pastBody_end hu rfl]
    exact cursor_put (fun _ h => h) (fun _ h => h)
  | case5 c rest _ _ hne hbreak =>
    rw [inside_lineBreak hne hbreak, cursor_read, pastBody_end hu rfl]
    rfl
  | case6 c rest hlone hescape hne hbreak ih =>
    rw [inside_plain (by simp [hne, hbreak]) (ne_backslash hlone hescape), cursor_read,
      pastBody_plain hu]
    exact cursor_put_inside hquote (unread_read hu) ih

end Cursor

/-- The text alone decides how far a literal is read, if there is room for its first quote. -/
theorem cursor_quoted (hquote : quote ≠ '\\') (hroom : (put quote ctx).result = .ok true) :
    (quoted quote ctx).context.cursor = pastBody (literalBody quote ctx.unread) ctx.cursor := by
  have hcursor := Keeps.put quote ctx
  rcases hput : put quote ctx with ⟨ctx', es, result⟩
  rw [hput] at hroom hcursor
  obtain rfl : result = .ok true := hroom
  have hunread : ctx.unread = ctx'.unread := congrArg Cursor.ahead hcursor.symm
  rw [quoted, context_bind hput, if_pos rfl, context_ofContext, hunread, ← hcursor]
  exact cursor_inside hquote rfl

/-- Once a literal is read, nothing of the context changes. -/
theorem context_literal (hquote : quote = apostrophe ∨ quote = doubleQuote) (ctx : Context) :
    (literal quote ctx).context = (quoted quote ctx).context := by
  rcases hquote with rfl | rfl
  · exact context_bind_of_keeps (fun outcome => Keeps.finishChar.finishLiteral outcome) ctx
  · have hfinish : Keeps id (do return some (← tokenOfBuffer .stringConstant)) :=
      .bind (.tokenOfBuffer _) fun _ => .pure _
    exact context_bind_of_keeps (fun outcome => hfinish.finishLiteral outcome) ctx

/-- A literal that fits is stored as it stands, with its closing quote if it has one. -/
theorem held_literal (hquote : quote = apostrophe ∨ quote = doubleQuote) (hb : ctx.Bounded)
    (hheld : ctx.held = [])
    (hfits : Piece.fits ctx.options (Piece.storedLength (literalBody quote ctx.unread)) = true) :
    (literal quote ctx).context.held = quote :: stored quote (literalBody quote ctx.unread) := by
  rw [context_literal hquote]
  exact (Ends.quoted_of_fits (ne_backslash_of_quote hquote) hb hheld hfits).held_eq

/-- A literal that fits is made into its piece, and is stored as it stands. -/
theorem Ends.literal_of_fits (hquote : quote = apostrophe ∨ quote = doubleQuote)
    (hb : ctx.Bounded) (hheld : ctx.held = [])
    (hfits : Piece.fits ctx.options (Piece.storedLength (literalBody quote ctx.unread)) = true) :
    let p := Piece.literal ctx.options quote ctx.unread (Piece.closed ctx.options quote)
    ∃ value : Option Token, value.toList = p.tokens ctx.start ∧
      Ends (literal quote) ctx value p.more (quote :: stored quote (literalBody quote ctx.unread))
        (p.diagnostics ctx.start) := by
  intro p
  obtain ⟨value, held, hends, hvalue⟩ := makes_quotation hquote hb hheld
  rw [← held_literal hquote hb hheld hfits, hends.held_eq]
  exact ⟨value, hvalue, hends⟩

/-- What becomes of a literal that is closed and fits is told by what stands between its quotes. -/
theorem Ends.literal_closed_of_fits (hquote : quote = apostrophe ∨ quote = doubleQuote)
    (hb : ctx.Bounded) (hheld : ctx.held = [])
    (hclosed : (literalBody quote ctx.unread).ending = .closed)
    (hfits : Piece.fits ctx.options ((literalBody quote ctx.unread).text.length + 2) = true) :
    let inside := (literalBody quote ctx.unread).text
    let finished := Piece.closed ctx.options quote inside
    ∃ value : Option Token, value.toList = Cut.tokens ctx.start finished.1 ∧
      Ends (literal quote) ctx value (inside ++ [quote]) (quote :: (inside ++ [quote]))
        (finished.2.map (·.diagnostic ctx.start)) := by
  intro inside finished
  obtain ⟨value, hvalue, hends⟩ := Ends.literal_of_fits hquote hb hheld
    (by rw [Piece.storedLength_of_closed hclosed]; exact hfits)
  rw [Piece.literal_of_closed _ hclosed, if_pos hfits] at hvalue
  rw [Piece.literal_of_closed _ hclosed, if_pos hfits, stored_of_closed hclosed,
    take_width_of_closed hclosed] at hends
  exact ⟨value, hvalue, hends⟩

end CLexer.Scan
