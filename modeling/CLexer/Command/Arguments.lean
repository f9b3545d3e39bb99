import CLexer.Text.Integer

/-!
# Command line arguments

Options may stand in any order, before and behind the name of the input. A long option can have
its value behind an equals sign, short options can be written together, and the last of several
short options can have its value right behind it. Two dashes end the options. Where an option is
given several times, the last one counts.

Reading the arguments only fails as a whole: what is wrong with them is not told apart.
-/

set_option autoImplicit false

namespace CLexer.Command

inductive Flag where
  | output
  | format
  | tables
  | maxIdentLen
  | emitMultichar
  | strict
  | color
  | noColor
  | logLevel
  | verbose
  | version
  | help
deriving DecidableEq

/-- Does a value belong to the option? -/
def Flag.takesValue : Flag → Bool
  | .output | .format | .tables | .maxIdentLen | .logLevel => true
  | .emitMultichar | .strict | .color | .noColor | .verbose | .version | .help => false

def longNames : List (String × Flag) :=
  [ ("--output", .output), ("--format", .format), ("--tables", .tables),
    ("--max-ident-len", .maxIdentLen), ("--emit-multichar", .emitMultichar),
    ("--strict", .strict), ("--color", .color), ("--no-color", .noColor),
    ("--log-level", .logLevel), ("--verbose", .verbose), ("--version", .version),
    ("--help", .help) ]

def shortNames : List (Char × Flag) :=
  [('o', .output), ('f', .format), ('t', .tables), ('v', .verbose)]

/-- An option that was given, with its value if it takes one. -/
structure Given where
  flag : Flag
  value : String := ""
deriving DecidableEq

structure Parts where
  given : List Given := []
  operands : List String := []
deriving DecidableEq

/-- Options written together, behind their dash. The last one may still wait for its value. -/
def readCluster : List Char → Option (List Given × Option Flag)
  | [] => some ([], none)
  | c :: rest =>
      match shortNames.lookup c with
      | none => none
      | some f =>
          if f.takesValue then
            if rest.isEmpty then some ([], some f) else some ([⟨f, String.ofList rest⟩], none)
          else (readCluster rest).map (fun r => (⟨f, ""⟩ :: r.1, r.2))

/-- A long option with the value behind its equals sign. -/
def readLong (arg : List Char) : Option (List Given × Option Flag) :=
  let name := String.ofList (arg.takeWhile (· ≠ '='))
  match longNames.lookup name, arg.dropWhile (· ≠ '=') with
  | none, _ => none
  | some f, [] => if f.takesValue then some ([], some f) else some ([⟨f, ""⟩], none)
  | some f, _ :: value => if f.takesValue then some ([⟨f, String.ofList value⟩], none) else none

/-- What one argument stands for. -/
inductive ArgumentRole where
  | operand
  /-- Two dashes: all that follow are operands. -/
  | terminator
  /-- Options, of which the last one may take the next argument as its value. -/
  | options (given : List Given) (waiting : Option Flag)
  /-- An option that there is not. -/
  | unknown

/-- The role of an argument. A single dash is an operand. -/
def argumentRole (arg : String) : ArgumentRole :=
  let found : Option (List Given × Option Flag) → ArgumentRole
    | some (given, waiting) => .options given waiting
    | none => .unknown
  match arg.toList with
  | ['-', '-'] => .terminator
  | '-' :: '-' :: rest => found (readLong ('-' :: '-' :: rest))
  | '-' :: c :: rest => found (readCluster (c :: rest))
  | _ => .operand

def readParts : List String → Option Parts
  | [] => some {}
  | arg :: rest =>
      match argumentRole arg with
      | .operand => (readParts rest).map (fun p => { p with operands := arg :: p.operands })
      | .terminator => some { operands := rest }
      | .unknown => none
      | .options given none => (readParts rest).map (fun p => { p with given := given ++ p.given })
      | .options given (some f) =>
          match rest with
          | [] => none
          | value :: more =>
              (readParts more).map (fun p => { p with given := given ++ ⟨f, value⟩ :: p.given })

namespace Parts

def has (p : Parts) (f : Flag) : Bool := p.given.any (·.flag == f)

/-- The last value of an option. -/
def value? (p : Parts) (f : Flag) : Option String :=
  (p.given.reverse.find? (·.flag == f)).map (·.value)

/-- Which of two opposite options was given last. -/
def switch? (p : Parts) (on off : Flag) : Option Bool :=
  (p.given.reverse.find? (fun g => g.flag == on || g.flag == off)).map (·.flag == on)

end Parts

/-! ## Requests -/

/-- How much is logged. -/
inductive LogLevel where
  | debug
  | info
  | warning
  | error
deriving DecidableEq

inductive Format where
  | text
  | json
deriving DecidableEq

/-- A request to scan a file. -/
structure Request where
  input : String
  output : Option String := none
  format : Format := .text
  tables : Option String := none
  wordLimit : Option Int := none
  keepMultichar : Bool := false
  strict : Bool := false
  color : Bool := false
  logLevel : Option LogLevel := none
  verbose : Bool := false
deriving DecidableEq

/-- What the arguments ask for. -/
inductive Demand where
  | version
  | help
  | scan (r : Request)
deriving DecidableEq

/-- A letter without its case. The long s and the Kelvin sign are letters of ASCII but for their
form. -/
def foldChar (c : Char) : Char :=
  if c = '\u017f' then 's' else if c = '\u212a' then 'k' else c.toLower

/-- Looks up a choice without regard to case. -/
def choose {α : Type} (choices : List (String × α)) (value : String) : Option α :=
  choices.lookup (String.ofList (value.toList.map foldChar))

def formatChoices : List (String × Format) := [("text", .text), ("json", .json)]

def logLevelChoices : List (String × LogLevel) :=
  [("debug", .debug), ("info", .info), ("warning", .warning), ("error", .error)]

/-- A number that is at least one. -/
def positiveInteger (value : String) : Option Int :=
  match Text.parseInteger value with
  | .ok n => if 1 ≤ n then some n else none
  | .error _ => none

/-- Reads the value of an option that was given. -/
def optionValue {α : Type} (p : Parts) (f : Flag) (read : String → Option α) :
    Option (Option α) :=
  match p.value? f with
  | none => some none
  | some v => (read v).map some

/-- The request to scan that the parts of the arguments stand for. -/
def requestOfParts (p : Parts) : Option Request := do
  let [input] := p.operands | none
  let format ← optionValue p .format (choose formatChoices)
  let wordLimit ← optionValue p .maxIdentLen positiveInteger
  let logLevel ← optionValue p .logLevel (choose logLevelChoices)
  return {
    input
    output := p.value? .output
    format := format.getD .text
    tables := p.value? .tables
    wordLimit
    keepMultichar := p.has .emitMultichar
    strict := p.has .strict
    color := (p.switch? .color .noColor).getD false
    logLevel
    verbose := p.has .verbose }

/-- What the arguments ask for. A question for the version or for help is answered whatever else
is given, if only the options exist. -/
def demand (args : List String) : Option Demand := do
  let p ← readParts args
  match p.given.find? (fun g => g.flag == .version || g.flag == .help) with
  | some g => return if g.flag == .version then .version else .help
  | none => return .scan (← requestOfParts p)

end CLexer.Command
