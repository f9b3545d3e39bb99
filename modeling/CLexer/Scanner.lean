import CLexer.Scan.Literal
import CLexer.Scan.Punctuation
import CLexer.Scan.Word

/-!
# The scanner

A scanner goes through a text in steps. Each step reads one character: a blank is passed over, and
anything else starts a token there and picks the routine that scans it. A character that starts
nothing is reported and passed over.

Every step leaves less to be read than it found (`unread_step_lt`), so a scan comes to the end of
its text.
-/

set_option autoImplicit false

namespace CLexer

namespace Scan

open CLexer.Text

/-- Scans what starts with `c`, which was read before. -/
def readLexeme (c : Char) : Scan Yield := do
  if isLiteralStart c then return .ofOption (← literal c)
  else if isWordStart c then return .token (← word c)
  else if isPunctuation c then punctuation c
  else
    report .fatal ("unknown token: " ++ String.ofList [c])
    return .nothing

/-- Scans what starts with `c`, or passes over a blank. -/
def stepFrom (c : Char) : Scan Yield := do
  if isBlank c then return .nothing
  else
    begin
    readLexeme c

/-- One step of a scanner. There is nothing to hand out at the end of the text. -/
def step : Scan (Option Yield) := do
  match ← next with
  | none => return none
  | some c => return some (← stepFrom c)

theorem NonGrowing.readLexeme (c : Char) : NonGrowing (readLexeme c) := by
  unfold Scan.readLexeme
  split
  · exact .bind (.literal (by assumption)) fun _ => .pure _
  · split
    · exact .bind (.word (isWordChar_of_isWordStart (by assumption))) fun _ => .pure _
    · split
      · exact .punctuation c
      · exact .bind (.report _ _) fun _ => .pure _

theorem NonGrowing.stepFrom (c : Char) : NonGrowing (stepFrom c) := by
  unfold Scan.stepFrom
  split
  · exact .pure _
  · exact .bind .begin fun _ => .readLexeme c

/-- A step that is not the last one leaves less to be read than it found. -/
theorem unread_step_lt {ctx : Context} {y : Yield} (h : (step ctx).result = .ok (some y)) :
    (step ctx).context.unread.length < ctx.unread.length := by
  cases ha : ctx.cursor.ahead with
  | nil =>
    have : (step ctx).result = .ok none := by
      simp [step, bind, andThen, next, Cursor.next, ha, pure]
    rw [this] at h
    cases h
  | cons c rest =>
    have hs : step ctx =
        (do return some (← stepFrom c) : Scan (Option Yield))
          { ctx with cursor := ctx.cursor.next.2 } := by
      simp [step, bind, andThen, next, Cursor.next, ha]
    have hl : ({ ctx with cursor := ctx.cursor.next.2 } : Context).unread = rest := by
      simp [Context.unread, ha]
    have hn := (NonGrowing.bind (.stepFrom c) fun y => .pure (some y))
      { ctx with cursor := ctx.cursor.next.2 }
    rw [hs, show ctx.unread = c :: rest from ha, List.length_cons]
    rw [hl] at hn
    exact Nat.lt_succ_of_le hn

end Scan

/-! ## A whole scan -/

/-- What comes of a scan: where it ends, what it lets the outside see, and the fault that stopped
it if one did. -/
structure Trace where
  context : Context
  events : List Event
  fault : Option Fault := none

namespace Context

/-- Steps until the text ends or a fault stops the scan. -/
def drain (ctx : Context) : Trace :=
  match h : Scan.step ctx with
  | ⟨ctx', events, .error e⟩ => ⟨ctx', events, some e⟩
  | ⟨ctx', events, .ok none⟩ => ⟨ctx', events, none⟩
  | ⟨ctx', events, .ok (some y)⟩ =>
      have : ctx'.unread.length < ctx.unread.length := by
        have hlt : (Scan.step ctx).context.unread.length < _ := Scan.unread_step_lt (by rw [h])
        rwa [h] at hlt
      let rest := ctx'.drain
      { rest with events := events ++ (y.tokens ctx'.start).map .token ++ rest.events }
termination_by ctx.unread.length

/-- One uninterrupted scan, with the notes on its start and on its end. -/
def scan (ctx : Context) : Trace :=
  let source := ctx.cursor.source
  let run := ctx.drain
  let last :=
    match run.fault with
    | none => [Event.note (.finished source (Event.tokens run.events).length)]
    | some _ => []
  { run with events := .note (.scanning source) :: run.events ++ last }

/-! ## Token by token -/

/-- What comes of looking for the next token. -/
structure Found where
  context : Context
  events : List Event
  /-- What was found: nothing at the end of the text. -/
  result : Except Fault (Option Yield)

/-- Steps until there is something to hand out. -/
def seek (ctx : Context) : Found :=
  match h : Scan.step ctx with
  | ⟨ctx', events, .error e⟩ => ⟨ctx', events, .error e⟩
  | ⟨ctx', events, .ok none⟩ => ⟨ctx', events, .ok none⟩
  | ⟨ctx', events, .ok (some .nothing)⟩ =>
      have : ctx'.unread.length < ctx.unread.length := by
        have hlt : (Scan.step ctx).context.unread.length < _ := Scan.unread_step_lt (by rw [h])
        rwa [h] at hlt
      let rest := ctx'.seek
      { rest with events := events ++ rest.events }
  | ⟨ctx', events, .ok (some y)⟩ => ⟨ctx', events, .ok (some y)⟩
termination_by ctx.unread.length

end Context

end CLexer
