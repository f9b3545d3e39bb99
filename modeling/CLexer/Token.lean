import CLexer.Position
import CLexer.Text.Quoted

/-!
# Tokens

A token is a lexeme with its kind and the position of its first character. The text of a token is
the lexeme as it stands: nothing is decoded, and quotes and suffixes are kept. It is never empty.
-/

set_option autoImplicit false

namespace CLexer

inductive TokenKind where
  | keyword
  | identifier
  | operator
  | delimiter
  | numericConstant
  | charConstant
  | stringConstant
  | directive
  | specialSymbol
deriving DecidableEq

namespace TokenKind

def all : List TokenKind :=
  [.keyword, .identifier, .operator, .delimiter, .numericConstant, .charConstant,
    .stringConstant, .directive, .specialSymbol]

/-- The name of a kind in documents. -/
def name : TokenKind → String
  | .keyword => "KEYWORD"
  | .identifier => "IDENTIFIER"
  | .operator => "OPERATOR"
  | .delimiter => "DELIMITER"
  | .numericConstant => "NUMERIC_CONSTANT"
  | .charConstant => "CHAR_CONSTANT"
  | .stringConstant => "STRING_CONSTANT"
  | .directive => "PREPROCESSOR_DIRECTIVE"
  | .specialSymbol => "SPECIAL_SYMBOL"

def ofName? (s : String) : Option TokenKind := all.find? (·.name == s)

/-- The label of a kind in listings. -/
def label : TokenKind → String
  | .keyword => "keyword"
  | .identifier => "id"
  | .operator => "op"
  | .delimiter => "delimiter"
  | .numericConstant => "num"
  | .charConstant => "char"
  | .stringConstant => "string"
  | .directive => "preprocessor directive"
  | .specialSymbol => "special symbol"

end TokenKind

/-- A lexeme with its kind and position. -/
structure Token where
  kind : TokenKind
  text : String
  position : Position
  text_ne : text ≠ ""
deriving DecidableEq

namespace Token

/-- What is said when a token would have no text. -/
def emptyTextMessage : String := "token text must not be empty"

/-- The token with the given parts, unless its text would be empty. -/
def make? (kind : TokenKind) (text : String) (position : Position) : Option Token :=
  if h : text = "" then none else some ⟨kind, text, position, h⟩

/-- The token as a line of a listing. -/
def render (t : Token) : String := "<" ++ t.kind.label ++ ", " ++ t.text ++ ">"

/-- The token with its text in quotes and its position. -/
def describe (t : Token) : String :=
  "Token(" ++ t.kind.name ++ ", " ++ Text.quote t.text ++ ", " ++ toString t.position.row ++ ":" ++
    toString t.position.column ++ ")"

end Token

end CLexer
