import CLexer.Json.Value

/-!
# Classifier tables

The words and characters that a scanner tells apart: reserved words, operator characters,
delimiter characters and the names of preprocessor directives.

The tables of a scanner are well formed by their type: reserved words and directives strictly
increase in the order of code points, no character is both an operator and a delimiter, and each
directive is a `#` with a name after it.
-/

set_option autoImplicit false

namespace CLexer

/-- Is the text a `#` with at least one character after it? -/
def isDirectiveName (s : String) : Bool :=
  match s.toList with
  | '#' :: _ :: _ => true
  | _ => false

/-- Does every word stand in front of the next one, in the order of code points? -/
def isIncreasing : List String → Bool
  | a :: b :: rest => decide (a < b) && isIncreasing (b :: rest)
  | _ => true

/-- Next to each other is enough: the order is transitive. -/
theorem pairwise_of_isIncreasing {ws : List String} (h : isIncreasing ws = true) :
    ws.Pairwise (· < ·) := by
  induction ws with
  | nil => exact .nil
  | cons a rest ih =>
    cases rest with
    | nil => simp
    | cons b rest =>
      simp only [isIncreasing, Bool.and_eq_true, decide_eq_true_eq] at h
      have hr := ih h.2
      refine .cons (fun c hc => ?_) hr
      cases hc with
      | head => exact h.1
      | tail _ hc => exact String.lt_trans h.1 (List.rel_of_pairwise_cons hr hc)

/-- The characters that stand in both lists. -/
def sharedChars (xs ys : List Char) : List Char := xs.filter ys.contains

theorem not_mem_of_shared_eq_nil {xs ys : List Char} (h : sharedChars xs ys = []) :
    ∀ c ∈ xs, c ∉ ys := by
  intro c hx hy
  have hs : c ∈ sharedChars xs ys := by simp [sharedChars, hx, hy]
  rw [h] at hs
  cases hs

structure Tables where
  keywords : List String
  operators : List Char
  delimiters : List Char
  directives : List String
  /-- Entries listed as reserved words that are no words, so that no word of a text is one. -/
  idle : List Json.Value := []
  keywords_increase : keywords.Pairwise (· < ·)
  directives_increase : directives.Pairwise (· < ·)
  operators_disjoint : ∀ c ∈ operators, c ∉ delimiters
  directives_named : ∀ d ∈ directives, isDirectiveName d = true

namespace Tables

/-! ## The standard tables -/

/-- The reserved words of C11. -/
def standardKeywords : List String :=
  [ "_Alignas", "_Alignof", "_Atomic", "_Bool", "_Complex", "_Generic", "_Imaginary",
    "_Noreturn", "_Static_assert", "_Thread_local", "auto", "break", "case", "char", "const",
    "continue", "default", "do", "double", "else", "enum", "extern", "float", "for", "goto",
    "if", "inline", "int", "long", "register", "restrict", "return", "short", "signed",
    "sizeof", "static", "struct", "switch", "typedef", "union", "unsigned", "void", "volatile",
    "while" ]

/-- The characters that operators start with. -/
def standardOperators : List Char :=
  ['+', '-', '*', '/', '%', '<', '>', '=', '!', '&', '|', '^', '~', '?']

/-- The characters that separate and group. -/
def standardDelimiters : List Char := [',', ';', ':', '(', ')', '[', ']', '\x7b', '\x7d']

def standardDirectives : List String :=
  [ "#define", "#elif", "#else", "#endif", "#error", "#if", "#ifdef", "#ifndef", "#include",
    "#pragma", "#undef" ]

/-- The tables of C11. -/
def standard : Tables where
  keywords := standardKeywords
  operators := standardOperators
  delimiters := standardDelimiters
  directives := standardDirectives
  keywords_increase := pairwise_of_isIncreasing (by decide +kernel)
  directives_increase := pairwise_of_isIncreasing (by decide +kernel)
  operators_disjoint := not_mem_of_shared_eq_nil (by decide +kernel)
  directives_named := List.all_eq_true.mp (by decide +kernel)

/-! ## Looking up -/

def isKeyword (t : Tables) (word : String) : Bool := t.keywords.contains word

def isOperator (t : Tables) (c : Char) : Bool := t.operators.contains c

def isDelimiter (t : Tables) (c : Char) : Bool := t.delimiters.contains c

/-- The answer to a question about a directive. -/
inductive DirectiveMatch where
  | found
  /-- The directive is not listed; the suggestion is missing only if nothing is listed. -/
  | unknown (suggestion : Option String)
deriving DecidableEq

/-- How many characters two texts have in common at their start. -/
def commonStart : List Char → List Char → Nat
  | x :: xs, y :: ys => if x = y then commonStart xs ys + 1 else 0
  | _, _ => 0

/-- Looks for a directive in an increasing list. If it is missing, its neighbour below or above
is suggested, whichever has the longer start in common with it. The neighbour above wins a tie. -/
def lookUpDirective (directives : List String) (text : String) : DirectiveMatch :=
  let below := (directives.takeWhile (· < text)).getLast?
  let above := (directives.dropWhile (· < text)).head?
  match below, above with
  | none, none => .unknown none
  | some b, none => .unknown (some b)
  | none, some a => if a = text then .found else .unknown (some a)
  | some b, some a =>
      if a = text then .found
      else if commonStart a.toList text.toList < commonStart b.toList text.toList then
        .unknown (some b)
      else .unknown (some a)

def lookUp (t : Tables) (text : String) : DirectiveMatch :=
  lookUpDirective t.directives text

end Tables

end CLexer
