import CLexer.Text.Class

/-!
# Numbers

The lexical form of numeric constants:

    number    := ['0' ('x' | 'X')] digits ['.' digits] [exponent] [suffix]
    exponent  := ('e' | 'E') ['+' | '-'] decimal-digit+
    suffix    := ['u' | 'U'] ['l' | 'L']

Digits are hexadecimal after `0x` and decimal otherwise; a run of them may be empty. After `0x` a
digit or a point is required, in an exponent a decimal digit. A `u` is only accepted without
fraction and exponent. A number is read as far as this form goes, and no further: what follows it
does not matter.
-/

set_option autoImplicit false

namespace CLexer.Lexeme

open CLexer.Text

/-- The digits that a number is written in. -/
inductive Base where
  | decimal
  | hexadecimal
deriving DecidableEq

def Base.isDigit : Base → Char → Bool
  | .decimal, c => c.isDigit
  | .hexadecimal, c => isHexDigit c

/-- A number that was read from the start of a text. -/
structure NumberReading where
  /-- The characters that belong to it. -/
  lexeme : List Char
  /-- Is it complete? It is not if something required is missing behind it. -/
  complete : Bool
deriving DecidableEq

/-- Puts characters in front of what was read behind them. -/
def NumberReading.after (front : List Char) (r : NumberReading) : NumberReading :=
  { r with lexeme := front ++ r.lexeme }

/-- Is the character one of the two cases of `lower`? -/
def isEither (lower upper c : Char) : Bool := c == lower || c == upper

/-- The `l` of a suffix. -/
def longSuffix : List Char → List Char
  | c :: _ => if isEither 'l' 'L' c then [c] else []
  | [] => []

/-- The suffix of a number; only an integer may be unsigned. -/
def suffix (integer : Bool) (text : List Char) : List Char :=
  match text with
  | c :: rest => if integer && isEither 'u' 'U' c then c :: longSuffix rest else longSuffix text
  | [] => []

def exponentSign : List Char → List Char
  | c :: _ => if c == '+' || c == '-' then [c] else []
  | [] => []

/-- An exponent with the suffix behind it, or the suffix alone. -/
def exponentAndSuffix (integer : Bool) (text : List Char) : NumberReading :=
  match text with
  | e :: rest =>
      if isEither 'e' 'E' e then
        let sign := exponentSign rest
        let unsigned := rest.drop sign.length
        let digits := unsigned.takeWhile Char.isDigit
        if digits.isEmpty then ⟨e :: sign, false⟩
        else ⟨e :: sign ++ digits ++ suffix false (unsigned.dropWhile Char.isDigit), true⟩
      else ⟨suffix integer text, true⟩
  | [] => ⟨[], true⟩

/-- A fraction with what follows it, or what follows a whole number. -/
def fractionAndRest (base : Base) (text : List Char) : NumberReading :=
  match text with
  | '.' :: rest =>
      (exponentAndSuffix false (rest.dropWhile base.isDigit)).after
        ('.' :: rest.takeWhile base.isDigit)
  | _ => exponentAndSuffix true text

/-- The digits of a number with all that follows them. -/
def digitsAndRest (base : Base) (text : List Char) : NumberReading :=
  (fractionAndRest base (text.dropWhile base.isDigit)).after (text.takeWhile base.isDigit)

/-- May the text follow `0x`? -/
def mayFollowHexMark : List Char → Bool
  | c :: _ => isHexDigit c || c == '.'
  | [] => false

/-- Reads the number at the start of a text. -/
def number (text : List Char) : NumberReading :=
  match text with
  | '0' :: x :: rest =>
      if isEither 'x' 'X' x then
        if mayFollowHexMark rest then (digitsAndRest .hexadecimal rest).after ['0', x]
        else ⟨['0', x], false⟩
      else digitsAndRest .decimal text
  | _ => digitsAndRest .decimal text

/-- Can the character go on with a number that is only skipped, given the one before it? A sign
can, right after the mark of an exponent. -/
def continuesNumber (previous : Option Char) (c : Char) : Bool :=
  c.isAlphanum || c == '.' ||
    ((c == '+' || c == '-') && (previous == some 'e' || previous == some 'E'))

/-- The part of a text that is skipped with a number, given the character before it. -/
def numberTail (previous : Option Char) : List Char → List Char
  | c :: rest => if continuesNumber previous c then c :: numberTail (some c) rest else []
  | [] => []

/-- A number that starts with a digit holds at least that digit. -/
theorem number_ne_nil {c : Char} (h : c.isDigit = true) (text : List Char) :
    (number (c :: text)).lexeme ≠ [] := by
  have hd : (digitsAndRest .decimal (c :: text)).lexeme ≠ [] := by
    simp [digitsAndRest, NumberReading.after, Base.isDigit, h]
  unfold number
  split
  · split
    · split
      · simp [NumberReading.after]
      · simp
    · exact hd
  · exact hd

end CLexer.Lexeme
