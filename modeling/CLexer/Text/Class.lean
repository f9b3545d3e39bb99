/-!
# Character classes

The classes of characters that decide where a lexeme starts and how far it goes. The lexical
grammar is an ASCII one: a character outside ASCII belongs to no class here, so it can stand in
quoted literals and comments only.
-/

set_option autoImplicit false

namespace CLexer.Text

/-- The single quote, which encloses a character constant. -/
def apostrophe : Char := '\x27'

/-- The double quote, which encloses a string constant. -/
def doubleQuote : Char := '\x22'

/-- The characters that separate lexemes: space, tab, line feed, vertical tab, form feed and
carriage return. -/
def isBlank (c : Char) : Bool :=
  c == ' ' || ('\t' ≤ c && c ≤ '\r')

/-- The characters an identifier may start with. -/
def isWordStart (c : Char) : Bool :=
  c.isAlpha || c == '_'

/-- The characters an identifier may go on with. -/
def isWordChar (c : Char) : Bool :=
  c.isAlphanum || c == '_'

/-- The hexadecimal digits in either case. -/
def isHexDigit (c : Char) : Bool :=
  c.isDigit || ('a' ≤ c && c ≤ 'f') || ('A' ≤ c && c ≤ 'F')

/-- The 32 visible ASCII characters that are neither letters nor digits. -/
def isPunctuation (c : Char) : Bool :=
  ('!' ≤ c && c ≤ '/') || (':' ≤ c && c ≤ '@') || ('[' ≤ c && c ≤ '\x60')
    || ('\x7b' ≤ c && c ≤ '~')

/-- The characters a literal can start with: a digit or one of the two quotes. -/
def isLiteralStart (c : Char) : Bool :=
  c.isDigit || c == apostrophe || c == doubleQuote

theorem isWordChar_of_isWordStart {c : Char} (h : isWordStart c = true) :
    isWordChar c = true := by
  simp only [isWordStart, isWordChar, Char.isAlphanum, Bool.or_eq_true] at h ⊢
  exact h.elim (fun ha => .inl (.inl ha)) .inr

end CLexer.Text
