import CLexer.Text.Integer

/-!
# Options

What can be set for a scan: how many characters of a word are kept, how much room the buffer
starts with, how long a literal may be, and which of two kinds of output are wanted.

Settings are the values as someone gave them. Options are settings that were checked: the two
sizes are positive, and a literal may be at least as long as a word.
-/

set_option autoImplicit false

namespace CLexer

/-- Checked options of a scan. -/
structure Options where
  /-- How many characters of an identifier or directive are kept. -/
  wordLimit : Nat := 32
  /-- How much room the buffer starts with. -/
  capacity : Nat := 100
  /-- How long a literal may be, if that is limited. -/
  lexemeLimit : Option Nat := none
  /-- Are the notices on comments kept? -/
  verbose : Bool := false
  /-- Is a character constant with several characters kept after the warning? -/
  keepMultichar : Bool := false
  wordLimit_pos : 0 < wordLimit := by decide
  capacity_pos : 0 < capacity := by decide
  wordLimit_le : ∀ l ∈ lexemeLimit, wordLimit ≤ l := by decide

/-- Options as they are given, unchecked. -/
structure Settings where
  wordLimit : Int := 32
  capacity : Int := 100
  lexemeLimit : Option Int := none
  verbose : Bool := false
  keepMultichar : Bool := false
deriving DecidableEq

/-- Why options cannot be made from what is given. -/
inductive OptionsError where
  | wordLimit
  | capacity
  | lexemeLimit (limit least : Int)
  | number (cause : Text.IntegerError)
deriving DecidableEq

def OptionsError.message : OptionsError → String
  | .wordLimit => "identifier_max_len must be positive"
  | .capacity => "buffer_capacity must be positive"
  | .lexemeLimit limit least =>
      "max_lexeme_len (" ++ toString limit ++ ") is below identifier_max_len (" ++
        toString least ++ ")"
  | .number cause => cause.message

namespace Settings

/-- Does a literal limit leave room for a word? -/
def limitFits (s : Settings) : Prop := ∀ l ∈ s.lexemeLimit, s.wordLimit ≤ l

instance (s : Settings) : Decidable s.limitFits :=
  inferInstanceAs (Decidable (∀ l ∈ s.lexemeLimit, s.wordLimit ≤ l))

theorem toNat_le_of_limitFits {s : Settings} (h : s.limitFits) :
    ∀ l ∈ s.lexemeLimit.map Int.toNat, s.wordLimit.toNat ≤ l := by
  intro l hl
  obtain ⟨k, hk, rfl⟩ := Option.map_eq_some_iff.mp hl
  have := h k hk
  omega

/-- Checks settings. The word limit is looked at first, then the capacity, then the length of
literals. -/
def check (s : Settings) : Except OptionsError Options :=
  if h₁ : s.wordLimit < 1 then .error .wordLimit
  else if h₂ : s.capacity < 1 then .error .capacity
  else if h₃ : s.limitFits then
    .ok {
      wordLimit := s.wordLimit.toNat
      capacity := s.capacity.toNat
      lexemeLimit := s.lexemeLimit.map Int.toNat
      verbose := s.verbose
      keepMultichar := s.keepMultichar
      wordLimit_pos := by omega
      capacity_pos := by omega
      wordLimit_le := toNat_le_of_limitFits h₃ }
  else .error (.lexemeLimit (s.lexemeLimit.getD 0) s.wordLimit)

end Settings

def Options.settings (o : Options) : Settings where
  wordLimit := o.wordLimit
  capacity := o.capacity
  lexemeLimit := o.lexemeLimit.map Int.ofNat
  verbose := o.verbose
  keepMultichar := o.keepMultichar

abbrev Environment := List (String × String)

/-- The value of a variable that is set. -/
def Environment.get? (env : Environment) (name : String) : Option String :=
  (env.find? (·.1 == name)).map (·.2)

namespace Settings

/-- The words that switch something on, in any case. -/
def isYes (value : String) : Bool :=
  ["1", "true", "yes", "on"].contains (String.ofList (value.toList.map Char.toLower))

/-- The integer in a variable, if the variable is set. -/
def integer? (env : Environment) (name : String) : Except OptionsError (Option Int) :=
  match env.get? name with
  | none => .ok none
  | some value =>
      match Text.parseInteger value with
      | .ok n => .ok (some n)
      | .error e => .error (.number e)

/-- The settings that an environment asks for. Variables that are not set leave the defaults. -/
def ofEnvironment (env : Environment) : Except OptionsError Settings := do
  let defaults : Settings := {}
  let wordLimit ← integer? env "CSCAN_IDENTIFIER_MAX_LEN"
  let capacity ← integer? env "CSCAN_BUFFER_CAPACITY"
  let lexemeLimit ← integer? env "CSCAN_MAX_LEXEME_LEN"
  return {
    wordLimit := wordLimit.getD defaults.wordLimit
    capacity := capacity.getD defaults.capacity
    lexemeLimit := lexemeLimit
    verbose := ((env.get? "CSCAN_VERBOSE").map isYes).getD defaults.verbose
    keepMultichar := ((env.get? "CSCAN_EMIT_MULTICHAR").map isYes).getD defaults.keepMultichar }

end Settings

def Options.ofEnvironment (env : Environment) : Except OptionsError Options := do
  (← Settings.ofEnvironment env).check

end CLexer
