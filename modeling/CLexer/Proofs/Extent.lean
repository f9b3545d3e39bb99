/-!
# How far literals and comments go

The scanner comes to the end of a literal or of a block comment in loops, one character after the
other. Here it is said of the text where that end is.

The inside of a literal between quotes is a sequence of units: a backslash with the character after
it, whatever that is, or any other single character. The closing quote ends it. So does the end of a
line or of the text, and then the literal is not closed; a backslash that is the last character of
the text has nothing to go with and belongs to no unit.

A block comment goes through the first `*/` behind its opening.
-/

set_option autoImplicit false

namespace CLexer.Lexeme

/-! ## Literals -/

inductive LiteralUnit where
  | plain (c : Char)
  | escape (c : Char)
deriving DecidableEq

/-- The unit as it is written. -/
def LiteralUnit.text : LiteralUnit → List Char
  | .plain c => [c]
  | .escape c => ['\\', c]

/-- What ends the inside of a literal. -/
inductive LiteralEnd where
  | closed
  /-- A line feed or a carriage return. -/
  | lineBreak
  | textEnd
  /-- A backslash in front of the end of the text. -/
  | danglingEscape
deriving DecidableEq

/-- How many characters of the text the end takes. -/
def LiteralEnd.width : LiteralEnd → Nat
  | .closed => 1
  | .lineBreak => 1
  | .textEnd => 0
  | .danglingEscape => 1

/-- Is the end of the text seen at this end? -/
def LiteralEnd.seesTextEnd : LiteralEnd → Bool
  | .closed => false
  | .lineBreak => false
  | .textEnd => true
  | .danglingEscape => true

/-- The inside of a literal and what ends it. -/
structure LiteralBody where
  units : List LiteralUnit
  ending : LiteralEnd
deriving DecidableEq

namespace LiteralBody

/-- One more unit at the front. -/
def cons (u : LiteralUnit) (b : LiteralBody) : LiteralBody := { b with units := u :: b.units }

/-- The inside as it is written. -/
def text (b : LiteralBody) : List Char := b.units.flatMap LiteralUnit.text

/-- How many characters of the text belong to the literal after its opening quote. -/
def width (b : LiteralBody) : Nat := b.text.length + b.ending.width

end LiteralBody

/-- Reads the inside of a literal from the text behind its opening quote. -/
def literalBody (quote : Char) : List Char → LiteralBody
  | [] => ⟨[], .textEnd⟩
  | ['\\'] => ⟨[], .danglingEscape⟩
  | '\\' :: c :: rest => (literalBody quote rest).cons (.escape c)
  | c :: rest =>
      if c = quote then ⟨[], .closed⟩
      else if c = '\r' ∨ c = '\n' then ⟨[], .lineBreak⟩
      else (literalBody quote rest).cons (.plain c)

/-! ## Block comments -/

/-- How many characters there are through the first `*/`, if there is one. -/
def blockWidth? : List Char → Option Nat
  | '*' :: '/' :: _ => some 2
  | _ :: rest => (blockWidth? rest).map (· + 1)
  | [] => none

end CLexer.Lexeme
