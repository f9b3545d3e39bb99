/-!
# Comments

The two styles of comments, and how far a comment of the first style goes behind its two opening
characters: up to the line feed, which it takes, or to the end of the text.
-/

set_option autoImplicit false

namespace CLexer.Lexeme

inductive CommentStyle where
  | line
  | block
deriving DecidableEq

/-- The style of a comment by its second character. -/
def CommentStyle.ofChar (c : Char) : CommentStyle := if c = '/' then .line else .block

/-- The rest of a line without its line feed. -/
def lineRest (text : List Char) : List Char := text.takeWhile (· ≠ '\n')

end CLexer.Lexeme
