import CLexer.Lexeme.Number
import CLexer.Problem
import CLexer.Scan.Context

/-!
# Scanning numbers

A numeric constant is read as far as its lexical form goes. One that breaks off where something
is required is reported and dropped. One that is longer than a lexeme may be is read up to the
character that no longer fits; from there on everything that looks like the rest of a number is
skipped, and the constant is reported and dropped.
-/

set_option autoImplicit false

namespace CLexer.Scan

def reportTooLong : Scan Unit := do
  report .error (Problem.overflowMessage (← context).buffer.overflow.limit)

/-- Skips what looks like the rest of a number. -/
def skipRest : Scan Unit := do
  advance (Lexeme.numberTail none (← context).unread).length
  lookAhead

/-- Makes a token of a number that was read, or reports that it breaks off. -/
def finishNumber (complete : Bool) : Scan (Option Token) := do
  if complete then return some (← tokenOfBuffer .numericConstant)
  else
    report .fatal ("unknown token: " ++ (← context).buffer.text)
    return none

/-- Scans the number that starts with `c`, which was read before. -/
def number (c : Char) : Scan (Option Token) := do
  let reading := Lexeme.number (c :: (← context).unread)
  match ← fill reading.lexeme with
  | [] =>
      settle c reading.lexeme.length
      finishNumber reading.complete
  | leftOver =>
      advance (reading.lexeme.length - leftOver.length)
      skipRest
      reportTooLong
      return none

theorem NonGrowing.reportTooLong : NonGrowing reportTooLong :=
  .bind .context fun _ => .report _ _

theorem NonGrowing.skipRest : NonGrowing skipRest :=
  .bind .context fun _ => .bind (.advance _) fun _ => .lookAhead

theorem NonGrowing.finishNumber (complete : Bool) : NonGrowing (finishNumber complete) := by
  unfold Scan.finishNumber
  split
  · exact .bind (.tokenOfBuffer _) fun _ => .pure _
  · exact .bind .context fun _ => .bind (.report _ _) fun _ => .pure _

theorem NonGrowing.number {c : Char} (h : c.isDigit = true) : NonGrowing (number c) := by
  refine .bind .context fun ctx => .bind (.fill _) fun leftOver => ?_
  split
  · obtain ⟨x, xs, hx⟩ := List.exists_cons_of_ne_nil (Lexeme.number_ne_nil h ctx.unread)
    rw [hx]
    exact .bind (.settle c _) fun _ => .finishNumber _
  · exact .bind (.advance _) fun _ => .bind .skipRest fun _ =>
      .bind .reportTooLong fun _ => .pure _

end CLexer.Scan
