import CLexer.Position

/-!
# Problems

What is said about a misuse of the library or about a broken configuration: a message, the place
it is about if there is one, and a hint if there is one. Problems in the text that is scanned are
not of this kind; they are diagnostics.
-/

set_option autoImplicit false

namespace CLexer

/-- A message with its place and its hint. -/
structure Problem where
  message : String
  location : Option Location := none
  hint : Option String := none
deriving DecidableEq

namespace Problem

/-- The problem as one line, and a second one for a hint that says something. -/
def render (p : Problem) : String :=
  let line :=
    match p.location with
    | some l => l.render ++ ": error: " ++ p.message
    | none => "error: " ++ p.message
  match p.hint with
  | some h => if h.isEmpty then line else line ++ "\nhint: " ++ h
  | none => line

/-- What is said of a lexeme that has more than `limit` characters. -/
def overflowMessage (limit : Int) : String :=
  "lexeme exceeds maximum length of " ++ toString limit ++ " characters"

/-- A lexeme has more characters than it may have. -/
def overflow (limit : Int) (location : Option Location := none) : Problem where
  message := overflowMessage limit
  location := location
  hint := some "raise max_lexeme_len in ScannerOptions"

/-- A classifier table is malformed. -/
def table (name detail : String) : Problem where
  message := "invalid " ++ name ++ " table: " ++ detail

end Problem

end CLexer
