import CLexer.Scan.Number

/-!
# Scanning literals

Character and string constants. Their text is kept as it stands, quotes and backslashes included.
A literal that is not closed on its line, or that is longer than a lexeme may be, is reported and
dropped. Where a character finds no room in the middle of a literal, a second loop skips the rest
of it, so that nothing of it is left to be scanned. A character constant has to have one unit; one
with more units is reported and dropped, unless the options want it kept.
-/

set_option autoImplicit false

namespace CLexer.Scan

open CLexer.Text

inductive LiteralOutcome where
  | closed
  | unterminated
  | tooLong
deriving DecidableEq

/-- Reads on to the end of a literal and stores nothing. `text` is what is ahead. -/
def skipInside (quote : Char) : List Char → Scan Unit
  | [] => discard next
  | c :: rest => do
      discard next
      if c = quote ∨ c = '\r' ∨ c = '\n' then pure ()
      else if c = '\\' then
        match rest with
        | [] => discard next
        | _ :: behind => do
            discard next
            skipInside quote behind
      else skipInside quote rest

/-- Gives up a literal that finds no room. Its rest is skipped. -/
def giveUp (quote : Char) (text : List Char) : Scan LiteralOutcome := do
  skipInside quote text
  return .tooLong

/-- Reads the inside of a literal into the buffer, and the quote that closes it. Where a character
of the inside finds no room, the literal is given up; where only the closing quote finds none, all
of the literal is read. -/
def inside (quote : Char) : List Char → Scan LiteralOutcome
  | [] => do
      discard next
      return .unterminated
  | c :: rest => do
      discard next
      if c = quote then
        if ← put quote then return .closed else return .tooLong
      else if c = '\r' ∨ c = '\n' then return .unterminated
      else if c = '\\' then
        match rest with
        | [] => do
            discard next
            return .unterminated
        | escaped :: behind => do
            discard next
            if ← putAll [c, escaped] then inside quote behind else giveUp quote behind
      else if ← put c then inside quote rest
      else giveUp quote rest

/-- Reads a literal behind its opening quote into the buffer. -/
def quoted (quote : Char) : Scan LiteralOutcome := do
  if ← put quote then inside quote (← context).unread else return .tooLong

/-! ## The loops

Both loops go along what is ahead. They are the loops that read one character after another, as the
equations below say. -/

/-- The loop that stores nothing, in terms of single reads. -/
theorem skipInside_loop (quote : Char) :
    (do skipInside quote (← context).unread) = (do
      match ← next with
      | none => pure ()
      | some c =>
        if c = quote ∨ c = '\r' ∨ c = '\n' then pure ()
        else if c = '\\' then
          match ← next with
          | none => pure ()
          | some _ => skipInside quote (← context).unread
        else skipInside quote (← context).unread) := by
  funext ctx
  show skipInside quote ctx.unread ctx = _
  rcases hu : ctx.unread with _ | ⟨c, rest⟩
  · rw [next_then_of_nil hu, discard_next_pure, skipInside]
  · rw [next_then_of_cons hu, skipInside.eq_def]
    dsimp only
    rw [read_of_cons hu]
    have hrest := unread_read hu
    generalize ({ ctx with cursor := ctx.cursor.next.2 } : Context) = ctx₁ at hrest ⊢
    split
    · rfl
    · split
      · cases rest with
        | nil => rw [next_then_of_nil hrest, discard_next_pure]
        | cons d behind =>
          rw [next_then_of_cons hrest]
          dsimp only
          rw [read_of_cons hrest, ← unread_read hrest]
          rfl
      · rw [← hrest]
        rfl

/-- The loop that stores, in terms of single reads. -/
theorem inside_loop (quote : Char) :
    (do inside quote (← context).unread) = (do
      match ← next with
      | none => return .unterminated
      | some c =>
        if c = quote then
          if ← put quote then return .closed else return .tooLong
        else if c = '\r' ∨ c = '\n' then return .unterminated
        else if c = '\\' then
          match ← next with
          | none => return .unterminated
          | some escaped =>
            if ← putAll [c, escaped] then inside quote (← context).unread
            else giveUp quote (← context).unread
        else if ← put c then inside quote (← context).unread
        else giveUp quote (← context).unread) := by
  funext ctx
  show inside quote ctx.unread ctx = _
  rcases hu : ctx.unread with _ | ⟨c, rest⟩
  · rw [next_then_of_nil hu, inside]
  · rw [next_then_of_cons hu, inside.eq_def]
    dsimp only
    rw [read_of_cons hu]
    have hrest := unread_read hu
    generalize ({ ctx with cursor := ctx.cursor.next.2 } : Context) = ctx₁ at hrest ⊢
    split
    · rfl
    · split
      · rfl
      · split
        · cases rest with
          | nil => rw [next_then_of_nil hrest]
          | cons d behind =>
            rw [next_then_of_cons hrest]
            dsimp only
            rw [read_of_cons hrest, ← unread_read hrest]
            exact put_congr (fun ctx' h => by rw [← h]; rfl) (fun ctx' h => by rw [← h]; rfl)
        · rw [put_eq_putAll, ← hrest]
          exact put_congr (fun ctx' h => by rw [← h]; rfl) (fun ctx' h => by rw [← h]; rfl)

/-! ## What becomes of a literal -/

/-- What is said of a literal that is not closed. -/
def unterminatedMessage (quote : Char) : String :=
  "missing terminating " ++ String.ofList [quote] ++ " character"

/-- Does the text of a closed character constant hold more than one unit? Its length tells: with
its quotes, one unit is three characters long, or four if it is an escape. -/
def isMultichar (text : List Char) : Bool :=
  decide ((if text[1]? = some '\\' then 4 else 3) < text.length)

/-- Classifies a character constant that is closed. -/
def finishChar : Scan (Option Token) := do
  let ctx ← context
  let text := ctx.buffer.chars.toList
  if text.length = 2 then
    report .error "empty character constant"
    return none
  else if isMultichar text then
    report .warning "multi-character character constant"
    if ctx.options.keepMultichar then return some (← tokenOfBuffer .charConstant)
    else return none
  else return some (← tokenOfBuffer .charConstant)

/-- Reports a literal that is dropped, or finishes it. -/
def finishLiteral (quote : Char) (finish : Scan (Option Token)) :
    LiteralOutcome → Scan (Option Token)
  | .closed => finish
  | .unterminated => do
      report .error (unterminatedMessage quote)
      return none
  | .tooLong => do
      reportTooLong
      return none

/-- Scans a character constant whose opening quote was read before. -/
def charConstant : Scan (Option Token) := do
  finishLiteral apostrophe finishChar (← quoted apostrophe)

/-- Scans a string constant whose opening quote was read before. -/
def stringConstant : Scan (Option Token) := do
  finishLiteral doubleQuote (do return some (← tokenOfBuffer .stringConstant))
    (← quoted doubleQuote)

/-- Scans the literal that starts with `c`, which was read before. -/
def literal (c : Char) : Scan (Option Token) :=
  if c = apostrophe then charConstant
  else if c = doubleQuote then stringConstant
  else number c

/-! ## Nothing more is left to be read -/

theorem NonGrowing.skipInside (quote : Char) (text : List Char) :
    NonGrowing (skipInside quote text) := by
  induction text using skipInside.induct with
  | case1 => exact .discardNext
  | case2 c rest ihbehind ihrest =>
    rw [Scan.skipInside.eq_def]
    refine .bind .discardNext fun _ => ?_
    split
    · exact .pure _
    · split
      · split
        · exact .discardNext
        · exact .bind .discardNext fun _ => ihbehind
      · exact ihrest

theorem NonGrowing.giveUp (quote : Char) (text : List Char) : NonGrowing (giveUp quote text) :=
  .bind (.skipInside quote text) fun _ => .pure _

theorem NonGrowing.inside (quote : Char) (text : List Char) : NonGrowing (inside quote text) := by
  have hput : ∀ {put : Scan Bool} {m m' : Scan LiteralOutcome}, NonGrowing put → NonGrowing m →
      NonGrowing m' → NonGrowing (do if ← put then m else m') := by
    intro put m m' hput hm hm'
    refine .bind hput fun stored => ?_
    split
    · exact hm
    · exact hm'
  induction text using inside.induct with
  | case1 => exact .bind .discardNext fun _ => .pure _
  | case2 c rest ihbehind ihrest =>
    rw [Scan.inside.eq_def]
    refine .bind .discardNext fun _ => ?_
    split
    · exact hput (.put _) (.pure _) (.pure _)
    · split
      · exact .pure _
      · split
        · split
          · exact .bind .discardNext fun _ => .pure _
          · exact .bind .discardNext fun _ => hput (.putAll _) ihbehind (.giveUp _ _)
        · exact hput (.put _) ihrest (.giveUp _ _)

theorem NonGrowing.quoted (quote : Char) : NonGrowing (quoted quote) := by
  refine .bind (.put quote) fun stored => ?_
  split
  · exact .bind .context fun ctx => .inside quote ctx.unread
  · exact .pure _

theorem NonGrowing.finishChar : NonGrowing finishChar := by
  refine .bind .context fun ctx => ?_
  dsimp only
  split
  · exact .bind (.report _ _) fun _ => .pure _
  · split
    · refine .bind (.report _ _) fun _ => ?_
      split
      · exact .bind (.tokenOfBuffer _) fun _ => .pure _
      · exact .pure _
    · exact .bind (.tokenOfBuffer _) fun _ => .pure _

theorem NonGrowing.finishLiteral (quote : Char) {finish : Scan (Option Token)}
    (h : NonGrowing finish) (o : LiteralOutcome) : NonGrowing (finishLiteral quote finish o) := by
  cases o with
  | closed => exact h
  | unterminated => exact .bind (.report _ _) fun _ => .pure _
  | tooLong => exact .bind .reportTooLong fun _ => .pure _

theorem NonGrowing.charConstant : NonGrowing charConstant :=
  .bind (.quoted _) fun o => .finishLiteral _ .finishChar o

theorem NonGrowing.stringConstant : NonGrowing stringConstant :=
  .bind (.quoted _) fun o =>
    .finishLiteral _ (.bind (.tokenOfBuffer _) fun _ => .pure _) o

theorem NonGrowing.literal {c : Char} (h : isLiteralStart c = true) : NonGrowing (literal c) := by
  unfold Scan.literal
  split
  · exact .charConstant
  · split
    · exact .stringConstant
    · rename_i h₁ h₂
      refine .number ?_
      simpa [isLiteralStart, h₁, h₂] using h

end CLexer.Scan
