import CLexer.Text.Class

/-!
# Words

The longest start of a text that is made of word characters, and the longest one that is made of
letters. Identifiers and reserved words are of the first kind, names of directives of the second.
-/

set_option autoImplicit false

namespace CLexer.Lexeme

open CLexer.Text

/-- The word at the start of a text. -/
def word (text : List Char) : List Char := text.takeWhile isWordChar

/-- The letters at the start of a text. -/
def letters (text : List Char) : List Char := text.takeWhile Char.isAlpha

theorem word_cons {c : Char} (h : isWordChar c = true) (text : List Char) :
    word (c :: text) = c :: word text := by
  simp [word, h]

end CLexer.Lexeme
