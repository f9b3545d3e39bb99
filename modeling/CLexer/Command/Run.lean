import CLexer.Command.Arguments
import CLexer.Command.Files
import CLexer.Json.Writer
import CLexer.Scanning
import CLexer.Tables.File
import CLexer.Text.Terminal

/-!
# Running the command

The command scans one file and writes its tokens, as a listing or as a JSON document. Its
diagnostics go to a collector. The listing goes out token by token, and a console behind the
collector says the diagnostics on the error output as they come; the document holds what is
collected and is written when the scan is done.

All that the command does is a function of its arguments, its environment and the files it finds.
The options come from the environment first, and have to be right; then the arguments override
them. The input is found before the output is emptied, and the output is emptied before the input
is read.

The error output is no terminal to the command: control sequences in what it says, such as those
in the name of a file, are left out. Only colors that were asked for are written.
-/

set_option autoImplicit false

namespace CLexer.Command

/-- What the command leaves behind. -/
structure Effects where
  exit : Nat := 0
  stdout : String := ""
  stderr : String := ""
  /-- The file that was written, with the text in it. -/
  written : Option (Key × String) := none
deriving DecidableEq

/-- Why the command stops before it is done. -/
inductive Stop where
  /-- A problem that the library describes. -/
  | problem (p : Problem)
  /-- Something that was given to the command is wrong. -/
  | invalid (message : String)
  /-- Something that the command does not expect. -/
  | unexpected
deriving DecidableEq

namespace Stop

def exit : Stop → Nat
  | .problem _ => 1
  | .invalid _ => 2
  | .unexpected => 3

/-- What is said on the error output. -/
def text : Stop → String
  | .problem p => Text.withoutSequences p.render ++ "\n"
  | .invalid message => "Error: " ++ Text.withoutSequences message ++ "\n"
  | .unexpected => "Internal error\n"

/-- The reason to stop that a fault of the tables gives. -/
def ofTableFault : TableFault → Stop
  | .number cause => .invalid cause.message
  | e =>
      match e.problem? with
      | some p => .problem p
      | none => .unexpected

/-- The reason to stop that a failed scan gives. -/
def ofFailure : Failure → Stop
  | .fault (.pushback cause location) => .problem (cause.problem location)
  | .fault (.overflow limit) => .problem (.overflow limit)
  | .fault .emptyToken => .invalid Token.emptyTextMessage
  | .refused => .unexpected
  | .undecodable f => .invalid f.message

end Stop

/-! ## What is needed for a scan -/

/-- The options of the environment, overridden by the arguments. -/
def requestedOptions (r : Request) (env : Environment) : Except OptionsError Options := do
  let s := (← Options.ofEnvironment env).settings
  let s := { s with
    verbose := r.verbose || s.verbose
    keepMultichar := r.keepMultichar || s.keepMultichar
    wordLimit := r.wordLimit.getD s.wordLimit }
  s.check

/-- Are notes logged? They are all of the lowest level. -/
def Request.showsNotes (r : Request) : Bool := r.logLevel == some .debug

def noteLine (n : Note) : String := Note.level ++ " " ++ n.channel ++ ": " ++ n.message ++ "\n"

/-- A note, if notes are logged. -/
def Request.logged (r : Request) (n : Note) : String := if r.showsNotes then noteLine n else ""

/-- Tables that were asked for, with what was logged on the way. -/
structure TablesFound where
  log : String
  result : Except Stop Tables

def tablesInFile (r : Request) (path : String) (bytes : List UInt8) : TablesFound :=
  let d := Text.Utf8.decode bytes
  match d.fault with
  | some f => ⟨"", .error (.invalid f.message)⟩
  | none =>
      let loaded := Tables.ofFile (plainPath path) d.chars
      { log := if loaded.begun then r.logged (.loadingTables (plainPath path)) else ""
        result := match loaded.result with
          | .ok t => .ok t
          | .error e => .error (.ofTableFault e) }

def requestedTables (r : Request) (look : Lookup) : TablesFound :=
  match r.tables with
  | none => ⟨"", .ok Tables.standard⟩
  | some path =>
      match look path with
      | .file _ bytes => tablesInFile r path bytes
      | _ => ⟨"", .error .unexpected⟩

/-- Where the tokens go. -/
inductive Sheet where
  | stdout
  | file (key : Key)
deriving DecidableEq

/-- Finds the place for the tokens. -/
def requestedSheet (r : Request) (look : Lookup) : Except Stop Sheet :=
  match r.output with
  | none => .ok .stdout
  | some path =>
      let plain := plainPath path
      if plain = "-" then .ok .stdout
      else
        match look plain with
        | .file key _ => .ok (.file key)
        | .vacant key => .ok (.file key)
        | .missing =>
            .error (.invalid ("[Errno 2] No such file or directory: " ++ Text.quote plain))
        | .folder => .error .unexpected
        | .blocked => .error .unexpected

/-- The bytes of the input once the output is emptied. -/
def inputBytes (r : Request) (look : Lookup) (sheet : Sheet) : List UInt8 :=
  match look r.input with
  | .file key bytes => if sheet = .file key then [] else bytes
  | _ => []

/-! ## Output -/

/-- The number that selects the color of a severity. -/
def colorCode : Severity → String
  | .debug => "34"
  | .warning => "33"
  | .error => "31"
  | .fatal => "35"

def diagnosticLine (color : Bool) (d : Diagnostic) : String :=
  (if color then "\x1b[" ++ colorCode d.severity ++ "m" ++ d.consoleLine ++ "\x1b[0m"
    else Text.withoutSequences d.consoleLine) ++ "\n"

/-- The sink that says what it takes on the error output. It takes everything. -/
def console : Sink := { role := .logger, verbose := true }

/-- The sinks of a request. The first one collects. For a listing the console is behind it, and gets
what the first one takes. -/
def Request.sinks (r : Request) (options : Options) : Chain :=
  .collector options.verbose ::
    match r.format with
    | .text => [console]
    | .json => []

/-- What a sink says when it takes a diagnostic. -/
def echo (color : Bool) (d : Diagnostic) (s : Sink) : String :=
  match s.role with
  | .logger => diagnosticLine color d
  | .collector => ""
  | .outline => ""

/-- What an event puts on the error output. -/
def eventText (r : Request) (chain : Chain) : Event → String
  | .note n => r.logged n
  | .report d => String.join ((chain.takers d).map (echo r.color d))
  | .token _ => ""
  | .textEnd => ""

def positionFields (p : Position) : List (String × Json.Value) :=
  [("row", .int p.row), ("column", .int p.column)]

def tokenValue (t : Token) : Json.Value :=
  .object ([("kind", .text t.kind.name), ("text", .text t.text)] ++ positionFields t.position)

def diagnosticValue (d : Diagnostic) : Json.Value :=
  .object ([("severity", .text d.severity.name)] ++ positionFields d.position ++
    [("message", .text d.message)])

def documentValue (source : String) (tokens : List Token) (ds : List Diagnostic) : Json.Value :=
  .object [("file", .text source), ("tokens", .array (tokens.map tokenValue)),
    ("diagnostics", .array (ds.map diagnosticValue))]

/-- The diagnostics that the first sink of a chain has taken. -/
def collected (chain : Chain) : List Diagnostic :=
  match chain with
  | s :: _ => s.diagnostics
  | [] => []

/-- A text for the tokens of a scan, and how many they are. -/
structure Output where
  text : String := ""
  count : Nat := 0

namespace Output

/-- A token comes: it is written, and counted. -/
def addLine (out : Output) (t : Token) : Output where
  text := out.text ++ t.render ++ "\n"
  count := out.count + 1

/-- A listing is written as the tokens come. -/
def listing (tokens : List Token) : Output := tokens.foldl addLine {}

/-- A document is written only once the scan is done, and its tokens are counted then. -/
def document (source : String) (report : Report) : Output :=
  if report.failure.isSome then {}
  else
    { text := Json.write (documentValue source report.tokens (collected report.chain)) ++ "\n"
      count := report.tokens.length }

end Output

/-- What is written for a scan. -/
def outputFor (format : Format) (source : String) (report : Report) : Output :=
  match format with
  | .text => .listing report.tokens
  | .json => .document source report

/-- The text of a listing. -/
def listingText (tokens : List Token) : String :=
  String.join (tokens.map (fun t => t.render ++ "\n"))

theorem listingText_cons (t : Token) (ts : List Token) :
    listingText (t :: ts) = t.render ++ "\n" ++ listingText ts := by
  simp [listingText, String.join_cons]

/-- The line that sums up a scan. -/
def totalsLine (source : String) (tokens : Nat) (ds : List Diagnostic) : String :=
  Text.withoutSequences
    ("Scanned " ++ source ++ ": " ++ toString tokens ++ " tokens, " ++ toString (errorCount ds) ++
      " errors, " ++ toString (countOf .warning ds) ++ " warnings") ++ "\n"

/-- The effects of stopping with nothing but words on the error output. -/
def Effects.stopped (log : String) (s : Stop) : Effects where
  exit := s.exit
  stderr := log ++ s.text

/-- The effects of a text that goes out, and of what is said beside it. -/
def Effects.ofSheet (sheet : Sheet) (text : String) (exit : Nat) (stderr : String) : Effects :=
  match sheet with
  | .stdout => { exit, stdout := text, stderr }
  | .file key => { exit, stderr, written := some (key, text) }

@[simp] theorem Effects.exit_ofSheet (sheet : Sheet) (text : String) (exit : Nat)
    (stderr : String) : (ofSheet sheet text exit stderr).exit = exit := by
  cases sheet <;> rfl

@[simp] theorem Effects.stderr_ofSheet (sheet : Sheet) (text : String) (exit : Nat)
    (stderr : String) : (ofSheet sheet text exit stderr).stderr = stderr := by
  cases sheet <;> rfl

/-! ## The command -/

def effectsOf (r : Request) (source : String) (sheet : Sheet) (log : String) (chain : Chain)
    (report : Report) : Effects :=
  let out := outputFor r.format source report
  let said := log ++ String.join (report.events.map (eventText r chain))
  match report.failure with
  | some f =>
      let stop := Stop.ofFailure f
      .ofSheet sheet out.text stop.exit (said ++ stop.text)
  | none =>
      let ds := collected report.chain
      let totals := if r.verbose then totalsLine source out.count ds else ""
      .ofSheet sheet out.text (if r.strict && anyError ds then 1 else 0) (said ++ totals)

def scanRequest (r : Request) (env : Environment) (look : Lookup) : Effects :=
  match requestedOptions r env with
  | .error e => .stopped "" (.invalid e.message)
  | .ok options =>
      let found := requestedTables r look
      match found.result with
      | .error s => .stopped found.log s
      | .ok tables =>
          match requestedSheet r look with
          | .error s => .stopped found.log s
          | .ok sheet =>
              let source := plainPath r.input
              let chain := r.sinks options
              let input := Input.ofUtf8 (inputBytes r look sheet)
              effectsOf r source sheet found.log chain
                (scanInput input tables options chain source)

def isFile (look : Lookup) (path : String) : Bool :=
  match look path with
  | .file .. => true
  | _ => false

def isFolder (look : Lookup) (path : String) : Bool :=
  match look path with
  | .folder => true
  | _ => false

/-- Are the paths of a request such that it can be carried out? Input and tables have to be
files, and the output no folder. -/
def pathsFit (r : Request) (look : Lookup) : Bool :=
  isFile look r.input && r.tables.all (isFile look) &&
    r.output.all (fun path => !isFolder look path)

/-- The effects of arguments that do not fit. -/
def usageError : Effects where
  exit := 2
  stderr := "usage error"

def versionLine : String := "cscan, version 1.0.0\n"

def helpText : String :=
  "Usage: cscan [OPTIONS] INPUT_FILE\n\n" ++
  "  Scan a C source file into tokens.\n\n" ++
  "Options:\n" ++
  "  -o, --output FILE         Write tokens to this file instead of stdout\n" ++
  "  -f, --format [text|json]  Token output format\n" ++
  "  -t, --tables FILE         JSON file with classifier tables\n" ++
  "  --max-ident-len INTEGER   Characters kept from identifiers\n" ++
  "  --emit-multichar          Emit multi-character constants after the warning\n" ++
  "  --strict                  Exit with status 1 on any error or fatal diagnostic\n" ++
  "  --color / --no-color      Force or disable colored diagnostics\n" ++
  "  --log-level LEVEL         Enable logging at this level\n" ++
  "  -v, --verbose             Show debug diagnostics and a summary\n" ++
  "  --version                 Show the version and exit.\n" ++
  "  --help                    Show this message and exit.\n"

def run (args : List String) (env : Environment) (look : Lookup) : Effects :=
  match demand args with
  | none => usageError
  | some .version => { stdout := versionLine }
  | some .help => { stdout := helpText }
  | some (.scan r) => if pathsFit r look then scanRequest r env look else usageError

/-- A command line does what the request does that it asks for. -/
theorem run_of_demand {args : List String} {r : Request} {look : Lookup}
    (hdemand : demand args = some (.scan r)) (hpaths : pathsFit r look = true) (env : Environment) :
    run args env look = scanRequest r env look := by
  simp [run, hdemand, hpaths]

end CLexer.Command
