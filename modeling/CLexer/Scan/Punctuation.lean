import CLexer.Lexeme.Comment
import CLexer.Lexeme.Operator
import CLexer.Lexeme.Word
import CLexer.Scan.Context

/-!
# Scanning punctuation

Operators, comments, directives, dots and single characters. Which of them a character starts is
decided by the tables first: an operator character starts an operator or a comment, a delimiter
stands alone, and only what is in neither table can start a directive or be a dot.

Two dots in front of a line end are two tokens of one routine, because the end cannot be given
back past. The second of them is not made together with the first: it starts one column behind
wherever the current token starts by the time it is asked for.
-/

set_option autoImplicit false

namespace CLexer

/-- What a scanning routine hands out. -/
inductive Yield where
  | nothing
  | token (t : Token)
  /-- The first of two dots; the second is still owed. -/
  | dotPair (first : Token)
deriving DecidableEq

namespace Yield

/-- At most one token. -/
def ofOption : Option Token → Yield
  | none => .nothing
  | some t => .token t

/-- The second of two dots, when the current token starts at `start`. -/
def secondDot (start : Position) : Token where
  kind := .specialSymbol
  text := "."
  position := ⟨start.row, start.column + 1⟩
  text_ne := by decide

/-- All the tokens, when the current token starts at `start`. -/
def tokens (start : Position) : Yield → List Token
  | .nothing => []
  | .token t => [t]
  | .dotPair t => [t, secondDot start]

end Yield

namespace Scan

open CLexer.Lexeme

/-! ## Comments -/

/-- Skips a line comment behind its opening. -/
def skipLine : Scan Unit := do
  report .debug "single line comment starts"
  advance (lineRest (← context).unread).length
  discard next

/-- Reads on to the end of a block comment, and says whether it is closed there. `afterStar` tells
whether a star inside the comment was read last, and the list is what is ahead. -/
def passBlock (afterStar : Bool) : List Char → Scan Bool
  | [] => do
      discard next
      return false
  | c :: rest => do
      discard next
      if afterStar && c == '/' then return true else passBlock (c == '*') rest

/-- The loop, in terms of single reads. -/
theorem passBlock_loop (afterStar : Bool) :
    (do passBlock afterStar (← context).unread) = (do
      match ← next with
      | none => return false
      | some c =>
        if afterStar && c == '/' then return true
        else passBlock (c == '*') (← context).unread) := by
  funext ctx
  show passBlock afterStar ctx.unread ctx = _
  rcases hu : ctx.unread with _ | ⟨c, rest⟩
  · rw [next_then_of_nil hu, passBlock]
  · rw [next_then_of_cons hu, passBlock]
    dsimp only
    rw [read_of_cons hu, ← unread_read hu]
    split <;> rfl

/-- Skips a block comment behind its opening. -/
def skipBlock : Scan Unit := do
  report .debug "multi-line comment starts"
  if !(← passBlock false (← context).unread) then report .error "unterminated comment"

/-- Skips a comment behind its opening. -/
def comment : CommentStyle → Scan Unit
  | .line => skipLine
  | .block => skipBlock

/-! ## Operators -/

def operatorRest (start : List Char) : Scan (Option Token) := do
  let more := operatorTail start (← context).unread
  advance more.length
  lookAhead
  return some (← tokenOf .operator (String.ofList (start ++ more)))

/-- Scans the operator that starts with `start`, which was read before, or skips the comment that
it turns out to be. -/
def operator (start : List Char) : Scan (Option Token) := do
  match start, (← context).unread with
  | ['/'], c :: _ =>
      if c = '/' ∨ c = '*' then
        advance 1
        comment (.ofChar c)
        return none
      else operatorRest start
  | _, _ => operatorRest start

/-! ## Directives -/

/-- What is said of a directive that is not listed. -/
def unknownDirectiveMessage (text : String) (suggestion : Option String) : String :=
  "invalid preprocessing directive " ++ text ++
    (match suggestion with
      | none => ""
      | some s => ", did you mean: " ++ s)

/-- Scans a directive whose `#` was read before. -/
def directive : Scan (Option Token) := do
  store ['#']
  let ctx ← context
  let name := letters ctx.unread
  storeCapped ctx.options.wordLimit name
  advance name.length
  lookAhead
  let text := (← context).buffer.text
  match ctx.tables.lookUp text with
  | .found => return some (← tokenOfBuffer .directive)
  | .unknown suggestion =>
      report .error (unknownDirectiveMessage text suggestion)
      return none

/-! ## Dots -/

/-- Scans dots of which the first was read before, by what follows it. -/
def dotsBefore : List Char → Scan Yield
  | '.' :: '.' :: _ => do
      advance 2
      return .token (← tokenOf .specialSymbol "...")
  | ['.'] => do
      advance 1
      discard next
      return .dotPair (← tokenOf .specialSymbol ".")
  | '.' :: '\n' :: _ => do
      advance 2
      return .dotPair (← tokenOf .specialSymbol ".")
  | '.' :: _ :: _ => do
      advance 2
      pushback
      pushback
      return .token (← tokenOf .specialSymbol ".")
  | _ => do
      lookAhead
      return .token (← tokenOf .specialSymbol ".")

def dots : Scan Yield := do dotsBefore (← context).unread

/-! ## Any punctuation -/

/-- Scans what starts with the punctuation character `c`, which was read before. -/
def punctuation (c : Char) : Scan Yield := do
  let tables := (← context).tables
  if tables.isOperator c then return .ofOption (← operator [c])
  else if tables.isDelimiter c then
    return .token (← tokenOf .delimiter (String.ofList [c]))
  else if c = '#' then return .ofOption (← directive)
  else if c = '.' then dots
  else return .token (← tokenOf .specialSymbol (String.ofList [c]))

/-! ## Nothing more is left to be read -/

theorem NonGrowing.skipLine : NonGrowing skipLine :=
  .bind (.report _ _) fun _ => .bind .context fun _ => .bind (.advance _) fun _ => .discardNext

theorem NonGrowing.passBlock (afterStar : Bool) (text : List Char) :
    NonGrowing (passBlock afterStar text) := by
  induction text generalizing afterStar with
  | nil => exact .bind .discardNext fun _ => .pure _
  | cons c rest ih =>
    refine .bind .discardNext fun _ => ?_
    split
    · exact .pure _
    · exact ih _

theorem NonGrowing.skipBlock : NonGrowing skipBlock := by
  refine .bind (.report _ _) fun _ => .bind .context fun _ => .bind (.passBlock _ _) fun closed => ?_
  split
  · exact .report _ _
  · exact .pure _

theorem NonGrowing.comment (style : CommentStyle) : NonGrowing (comment style) := by
  cases style with
  | line => exact .skipLine
  | block => exact .skipBlock

theorem NonGrowing.operatorRest (start : List Char) : NonGrowing (operatorRest start) :=
  .bind .context fun _ => .bind (.advance _) fun _ => .bind .lookAhead fun _ =>
    .bind (.tokenOf _ _) fun _ => .pure _

theorem NonGrowing.operator (start : List Char) : NonGrowing (operator start) := by
  refine .bind .context fun ctx => ?_
  split
  · split
    · exact .bind (.advance _) fun _ => .bind (.comment _) fun _ => .pure _
    · exact .operatorRest _
  · exact .operatorRest _

theorem NonGrowing.directive : NonGrowing directive := by
  refine .bind (.store _) fun _ => .bind .context fun ctx => .bind (.storeCapped _ _) fun _ =>
    .bind (.advance _) fun _ => .bind .lookAhead fun _ => .bind .context fun _ => ?_
  dsimp only
  split
  · exact .bind (.tokenOfBuffer _) fun _ => .pure _
  · exact .bind (.report _ _) fun _ => .pure _

theorem leaves_dotsBefore (text : List Char) :
    Leaves text.length text.length (dotsBefore text) := by
  unfold dotsBefore
  split
  · exact (NonGrowing.bind (.advance _) fun _ =>
      .bind (.tokenOf _ _) fun _ => .pure _).leaves _
  · exact (NonGrowing.bind (.advance _) fun _ => .bind .discardNext fun _ =>
      .bind (.tokenOf _ _) fun _ => .pure _).leaves _
  · exact (NonGrowing.bind (.advance _) fun _ =>
      .bind (.tokenOf _ _) fun _ => .pure _).leaves _
  · -- Both characters were read just before, so giving them back leaves what was there.
    rename_i x rest _ _
    refine .bind (.advance 2 rest.length) (fun _ => ?_) (by simp only [List.length_cons]; omega)
    refine .bind (.pushback _) (fun _ => ?_) (by simp only [List.length_cons]; omega)
    refine .bind (.pushback _) (fun _ => ?_) (by simp only [List.length_cons]; omega)
    exact (NonGrowing.bind (.tokenOf _ _) fun _ => .pure _).leaves _
  · exact (NonGrowing.bind .lookAhead fun _ =>
      .bind (.tokenOf _ _) fun _ => .pure _).leaves _

theorem NonGrowing.dots : NonGrowing dots :=
  .ofContext fun ctx => leaves_dotsBefore ctx.unread ctx (Nat.le_refl _)

theorem NonGrowing.punctuation (c : Char) : NonGrowing (punctuation c) := by
  refine .bind .context fun ctx => ?_
  dsimp only
  split
  · exact .bind (.operator _) fun _ => .pure _
  · split
    · exact .bind (.tokenOf _ _) fun _ => .pure _
    · split
      · exact .bind .directive fun _ => .pure _
      · split
        · exact .dots
        · exact .bind (.tokenOf _ _) fun _ => .pure _

end Scan

end CLexer
