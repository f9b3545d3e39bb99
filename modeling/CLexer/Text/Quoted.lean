import CLexer.Text.Class
import CLexer.Text.Hex
import CLexer.Text.Printable

/-!
# Quoted text

Text between quotes, so that every character of it can be told apart in a message. The quotes are
single ones unless the text has a single quote and no double quote. Inside, the quote in use and
the backslash follow a backslash; line feed, carriage return and tab have their letters; whatever
else is not printable is written by its code point, in the shortest of three widths.
-/

set_option autoImplicit false

namespace CLexer.Text

/-- The quote that encloses `cs`. -/
def enclosingQuote (cs : List Char) : Char :=
  if cs.contains apostrophe && !cs.contains doubleQuote then doubleQuote else apostrophe

/-- A character that is not printable, written by its code point. -/
def codePointEscape (c : Char) : List Char :=
  if c.toNat < 0x100 then '\\' :: 'x' :: hexDigits 2 c.toNat
  else if c.toNat < 0x10000 then '\\' :: 'u' :: hexDigits 4 c.toNat
  else '\\' :: 'U' :: hexDigits 8 c.toNat

/-- One character inside quotes `q`. -/
def quoteChar (q c : Char) : List Char :=
  if c == q || c == '\\' then ['\\', c]
  else if c == '\n' then ['\\', 'n']
  else if c == '\r' then ['\\', 'r']
  else if c == '\t' then ['\\', 't']
  else if isPrintable c then [c]
  else codePointEscape c

/-- The text in quotes. -/
def quote (s : String) : String :=
  let q := enclosingQuote s.toList
  String.ofList (q :: s.toList.flatMap (quoteChar q) ++ [q])

/-- Several quoted texts in square brackets, separated by a comma and a space. -/
def quoteList (ss : List String) : String :=
  "[" ++ ", ".intercalate (ss.map quote) ++ "]"

end CLexer.Text
