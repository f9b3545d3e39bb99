/-!
# Operators

An operator starts with one character and goes on as long as the next character is a listed
continuation of what has been read.
-/

set_option autoImplicit false

namespace CLexer.Lexeme

/-- What an operator can go on with. -/
def operatorContinuations : List (List Char × List Char) :=
  [ (['+'], ['+', '=']),
    (['-'], ['-', '=']),
    (['&'], ['&', '=']),
    (['|'], ['|', '=']),
    (['<'], ['<', '=']),
    (['>'], ['>', '=']),
    (['<', '<'], ['=']),
    (['>', '>'], ['=']),
    (['*'], ['=']),
    (['/'], ['=']),
    (['%'], ['=']),
    (['^'], ['=']),
    (['!'], ['=']),
    (['='], ['=']) ]

def continuesOperator (operator : List Char) (c : Char) : Bool :=
  match operatorContinuations.lookup operator with
  | some cs => cs.contains c
  | none => false

/-- The characters of a text that go on with an operator. -/
def operatorTail (operator : List Char) : List Char → List Char
  | c :: rest =>
      if continuesOperator operator c then c :: operatorTail (operator ++ [c]) rest else []
  | [] => []

end CLexer.Lexeme
