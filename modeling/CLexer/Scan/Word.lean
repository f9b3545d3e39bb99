import CLexer.Lexeme.Word
import CLexer.Scan.Context

/-!
# Scanning words

An identifier or reserved word. The whole word is read, but only as many characters of it are kept
as the options allow; what the word is, is decided by what is kept. `sizeof` is an operator,
whatever the tables say of it.
-/

set_option autoImplicit false

namespace CLexer.Scan

open CLexer.Text

/-- The word that is an operator. -/
def sizeofWord : String := "sizeof"

def wordKind (tables : Tables) (text : String) : TokenKind :=
  if text = sizeofWord then .operator
  else if tables.isKeyword text then .keyword
  else .identifier

/-- Scans the word that starts with `c`, which was read before. -/
def word (c : Char) : Scan Token := do
  let ctx ← context
  let lexeme := Lexeme.word (c :: ctx.unread)
  storeCapped ctx.options.wordLimit lexeme
  settle c lexeme.length
  tokenOfBuffer (wordKind ctx.tables (← context).buffer.text)

theorem NonGrowing.word {c : Char} (h : isWordChar c = true) : NonGrowing (word c) := by
  refine .bind .context fun ctx => .bind (.storeCapped _ _) fun _ => ?_
  rw [Lexeme.word_cons h]
  exact .bind (.settle c _) fun _ => .bind .context fun _ => .tokenOfBuffer _

end CLexer.Scan
