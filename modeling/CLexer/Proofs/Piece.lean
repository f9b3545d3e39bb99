import CLexer.Proofs.Extent
import CLexer.Scanner

/-!
# Pieces of a text

A scanner takes a text apart step by step, and between the steps it keeps a cursor, a buffer with
its room, and a start position. None of that decides anything: what a step makes of a text depends
on the tables, on the options and on the text that is left, and on nothing else. This file says what
it makes, as a function. `Piece.of` gives for the text that is left the piece that comes off its
front: the characters it takes, the tokens cut out of them, and the remarks on it.

There is a function for each way a piece can start, and each is as long as the lexical rule it
states. That the scanner does just this is proved elsewhere; the pieces do not mention it.
-/

set_option autoImplicit false

namespace CLexer

/-! ## Parts of a piece -/

/-- The part of a text that becomes a token. -/
structure Cut where
  kind : TokenKind
  first : Char
  more : List Char := []
deriving DecidableEq

namespace Cut

def chars (k : Cut) : List Char := k.first :: k.more

/-- The token that the part becomes, at a position. -/
def token (k : Cut) (start : Position) : Token where
  kind := k.kind
  text := String.ofList k.chars
  position := start
  text_ne := fun h => by simpa [chars] using congrArg String.toList h

def dot : Cut := ⟨.specialSymbol, '.', []⟩

/-- Tokens of parts that follow each other on one row. -/
def tokens (start : Position) : List Cut → List Token
  | [] => []
  | k :: ks => k.token start :: tokens ⟨start.row, start.column + k.chars.length⟩ ks

end Cut

/-- A diagnostic without its position. -/
structure Remark where
  severity : Severity
  message : String
deriving DecidableEq

def Remark.diagnostic (r : Remark) (start : Position) : Diagnostic :=
  ⟨r.severity, start, r.message⟩

/-- What a step of a scanner makes of the front of a text. -/
structure Piece where
  /-- The characters it takes behind its first. -/
  more : List Char := []
  cuts : List Cut := []
  remarks : List Remark := []
deriving DecidableEq

namespace Piece

open CLexer.Text

def tokens (p : Piece) (start : Position) : List Token := Cut.tokens start p.cuts

def diagnostics (p : Piece) (start : Position) : List Diagnostic :=
  p.remarks.map (·.diagnostic start)

/-! ## Where a lexeme ends -/

/-- What a look at the next character takes: a line feed stays read, anything else is given back. -/
def glanced : List Char → List Char
  | '\n' :: _ => ['\n']
  | _ => []

/-- May a lexeme be `n` characters long? -/
def fits (options : Options) (n : Nat) : Bool :=
  match options.lexemeLimit with
  | none => true
  | some l => decide (n ≤ l)

def tooLong (options : Options) : Remark :=
  ⟨.error, Problem.overflowMessage (options.lexemeLimit.getD 0 : Nat)⟩

/-! ## Words and numbers -/

/-- A word. Only so much of it is kept as the options allow. -/
def word (tables : Tables) (options : Options) (c : Char) (rest : List Char) : Piece :=
  let whole := Lexeme.word rest
  let kept := whole.take (options.wordLimit - 1)
  { more := whole ++ glanced (rest.drop whole.length)
    cuts := [⟨Scan.wordKind tables (String.ofList (c :: kept)), c, kept⟩] }

/-- The text behind an overlong number that is skipped with it: what fits, the character that does
not, and what looks like the rest. -/
def overlong (limit : Nat) (rest : List Char) : List Char :=
  rest.take limit ++ Lexeme.numberTail none (rest.drop limit)

/-- A number. One that breaks off is remarked on, and so is one that is too long. -/
def number (options : Options) (c : Char) (rest : List Char) : Piece :=
  let reading := Lexeme.number (c :: rest)
  if fits options reading.lexeme.length then
    let more := reading.lexeme.tail
    let taken := more ++ glanced (rest.drop more.length)
    if reading.complete then
      { more := taken, cuts := [⟨.numericConstant, c, more⟩] }
    else
      { more := taken
        remarks := [⟨.fatal, "unknown token: " ++ String.ofList reading.lexeme⟩] }
  else
    let skipped := overlong (options.lexemeLimit.getD 0) rest
    { more := skipped ++ glanced (rest.drop skipped.length)
      remarks := [tooLong options] }

/-! ## Literals -/

/-- How many characters of a literal go into the buffer, its quotes among them. -/
def storedLength (body : Lexeme.LiteralBody) : Nat :=
  match body.ending with
  | .closed => body.text.length + 2
  | _ => body.text.length + 1

theorem storedLength_of_closed {body : Lexeme.LiteralBody} (h : body.ending = .closed) :
    storedLength body = body.text.length + 2 := by
  unfold storedLength
  rw [h]

theorem storedLength_of_open {body : Lexeme.LiteralBody} (h : body.ending ≠ .closed) :
    storedLength body = body.text.length + 1 := by
  unfold storedLength
  split
  · exact absurd (by assumption) h
  · rfl

/-- A literal. `closed` says what becomes of one that is closed and not too long, given what stands
between the quotes. -/
def literal (options : Options) (quote : Char) (rest : List Char)
    (closed : List Char → List Cut × List Remark) : Piece :=
  let body := Lexeme.literalBody quote rest
  let more := rest.take body.width
  if fits options (storedLength body) then
    match body.ending with
    | .closed => ⟨more, (closed body.text).1, (closed body.text).2⟩
    | _ =>
        { more
          remarks := [⟨.error, Scan.unterminatedMessage quote⟩] }
  else { more, remarks := [tooLong options] }

theorem literal_of_closed {options : Options} {quote : Char} {rest : List Char}
    (closed : List Char → List Cut × List Remark)
    (h : (Lexeme.literalBody quote rest).ending = .closed) :
    let body := Lexeme.literalBody quote rest
    literal options quote rest closed =
      if fits options (body.text.length + 2) then
        ⟨rest.take body.width, (closed body.text).1, (closed body.text).2⟩
      else { more := rest.take body.width, remarks := [tooLong options] } := by
  intro body
  unfold literal
  dsimp only
  rw [storedLength_of_closed h, h]

theorem literal_of_open {options : Options} {quote : Char} {rest : List Char}
    (closed : List Char → List Cut × List Remark)
    (h : (Lexeme.literalBody quote rest).ending ≠ .closed) :
    let body := Lexeme.literalBody quote rest
    literal options quote rest closed =
      { more := rest.take body.width
        remarks :=
          [if fits options (body.text.length + 1) then ⟨.error, Scan.unterminatedMessage quote⟩
            else tooLong options] } := by
  intro body
  unfold literal
  dsimp only
  rw [storedLength_of_open h]
  split
  · split
    · exact absurd (by assumption) h
    · rfl
  · rfl

def closedString (inside : List Char) : List Cut × List Remark :=
  ([⟨.stringConstant, doubleQuote, inside ++ [doubleQuote]⟩], [])

/-- A closed character constant: it has to have one unit, and may have more if the options say so. -/
def closedChar (options : Options) (inside : List Char) : List Cut × List Remark :=
  let cut : Cut := ⟨.charConstant, apostrophe, inside ++ [apostrophe]⟩
  if inside = [] then ([], [⟨.error, "empty character constant"⟩])
  else if Scan.isMultichar cut.chars then
    (if options.keepMultichar then [cut] else [],
      [⟨.warning, "multi-character character constant"⟩])
  else ([cut], [])

/-- What becomes of a closed literal is told by its quote. -/
def closed (options : Options) (quote : Char) : List Char → List Cut × List Remark :=
  if quote = apostrophe then closedChar options else closedString

/-! ## Punctuation -/

/-- A comment whose first character is a slash; `c` is the second. -/
def comment (c : Char) (rest : List Char) : Piece :=
  match Lexeme.CommentStyle.ofChar c with
  | .line =>
      { more := c :: rest.take ((Lexeme.lineRest rest).length + 1)
        remarks := [⟨.debug, "single line comment starts"⟩] }
  | .block =>
      match Lexeme.blockWidth? rest with
      | some width =>
          { more := c :: rest.take width
            remarks := [⟨.debug, "multi-line comment starts"⟩] }
      | none =>
          { more := c :: rest
            remarks := [⟨.debug, "multi-line comment starts"⟩,
              ⟨.error, "unterminated comment"⟩] }

def plainOperator (c : Char) (rest : List Char) : Piece :=
  let tail := Lexeme.operatorTail [c] rest
  { more := tail ++ glanced (rest.drop tail.length)
    cuts := [⟨.operator, c, tail⟩] }

def operator (c : Char) (rest : List Char) : Piece :=
  match rest with
  | d :: behind =>
      if c = '/' ∧ (d = '/' ∨ d = '*') then comment d behind else plainOperator c rest
  | [] => plainOperator c rest

/-- A directive. Only so much of it is kept as the options allow. -/
def directive (tables : Tables) (options : Options) (rest : List Char) : Piece :=
  let whole := Lexeme.letters rest
  let kept := whole.take (options.wordLimit - 1)
  let more := whole ++ glanced (rest.drop whole.length)
  let text := String.ofList ('#' :: kept)
  match tables.lookUp text with
  | .found => { more, cuts := [⟨.directive, '#', kept⟩] }
  | .unknown suggestion =>
      { more
        remarks := [⟨.error, Scan.unknownDirectiveMessage text suggestion⟩] }

/-- Dots. Two of them in front of a line feed or of the end are two tokens. -/
def dots (rest : List Char) : Piece :=
  match rest with
  | '.' :: '.' :: _ => { more := ['.', '.'], cuts := [⟨.specialSymbol, '.', ['.', '.']⟩] }
  | ['.'] => { more := ['.'], cuts := [.dot, .dot] }
  | '.' :: '\n' :: _ => { more := ['.', '\n'], cuts := [.dot, .dot] }
  | '.' :: _ :: _ => { cuts := [.dot] }
  | _ => { more := glanced rest, cuts := [.dot] }

/-- What starts with a punctuation character. The tables come first. -/
def punctuation (tables : Tables) (options : Options) (c : Char) (rest : List Char) : Piece :=
  if tables.isOperator c then operator c rest
  else if tables.isDelimiter c then { cuts := [⟨.delimiter, c, []⟩] }
  else if c = '#' then directive tables options rest
  else if c = '.' then dots rest
  else { cuts := [⟨.specialSymbol, c, []⟩] }

/-! ## Any piece -/

/-- What starts with a character that is no blank. -/
def lexeme (tables : Tables) (options : Options) (c : Char) (rest : List Char) : Piece :=
  if isLiteralStart c then
    if c = apostrophe then literal options apostrophe rest (closedChar options)
    else if c = doubleQuote then literal options doubleQuote rest closedString
    else number options c rest
  else if isWordStart c then word tables options c rest
  else if isPunctuation c then punctuation tables options c rest
  else { remarks := [⟨.fatal, "unknown token: " ++ String.ofList [c]⟩] }

/-- The piece at the front of a text that starts with `c`. -/
def of (tables : Tables) (options : Options) (c : Char) (rest : List Char) : Piece :=
  if isBlank c then {} else lexeme tables options c rest

end Piece

end CLexer
