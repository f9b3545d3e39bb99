import CLexer.Position

/-!
# Diagnostics

What the scanner has to say about the text it scans. A diagnostic never stops a scan; its
severity only sorts it.
-/

set_option autoImplicit false

namespace CLexer

/-- How serious a diagnostic is, from the least to the most. -/
inductive Severity where
  | debug
  | warning
  | error
  | fatal
deriving DecidableEq

namespace Severity

def all : List Severity := [.debug, .warning, .error, .fatal]

/-- The name of a severity in documents. -/
def name : Severity → String
  | .debug => "DEBUG"
  | .warning => "WARNING"
  | .error => "ERROR"
  | .fatal => "FATAL"

/-- The name of a severity in messages. -/
def word : Severity → String
  | .debug => "debug"
  | .warning => "warning"
  | .error => "error"
  | .fatal => "fatal"

def ofName? (s : String) : Option Severity := all.find? (·.name == s)

/-- The level at which a diagnostic is logged. -/
def logLevel : Severity → String
  | .debug => "DEBUG"
  | .warning => "WARNING"
  | .error => "ERROR"
  | .fatal => "CRITICAL"

/-- Does the severity mean that the text is wrong? -/
def isError : Severity → Bool
  | .debug => false
  | .warning => false
  | .error => true
  | .fatal => true

end Severity

/-- A remark on the token that starts at a position. -/
structure Diagnostic where
  severity : Severity
  position : Position
  message : String
deriving DecidableEq

namespace Diagnostic

/-- The position in words. -/
def place (d : Diagnostic) : String :=
  "row " ++ toString d.position.row ++ ", column " ++ toString d.position.column

/-- The diagnostic without its severity. -/
def render (d : Diagnostic) : String := d.place ++ ": " ++ d.message

/-- The diagnostic with its severity before the message. -/
def consoleLine (d : Diagnostic) : String :=
  d.place ++ ": " ++ d.severity.word ++ ": " ++ d.message

/-- The diagnostic with its severity before the position. -/
def summaryLine (d : Diagnostic) : String := d.severity.word ++ ": " ++ d.render

end Diagnostic

def countOf (s : Severity) (ds : List Diagnostic) : Nat :=
  ds.countP (fun d => decide (d.severity = s))

/-- How many diagnostics say that the text is wrong. -/
def errorCount (ds : List Diagnostic) : Nat := countOf .error ds + countOf .fatal ds

/-- Does a diagnostic say that the text is wrong? -/
def anyError (ds : List Diagnostic) : Bool := ds.any (·.severity.isError)

/-- The messages, of one severity if one is given. -/
def messagesOf (s : Option Severity) (ds : List Diagnostic) : List String :=
  (ds.filter (fun d => match s with
    | none => true
    | some s => decide (d.severity = s))).map (·.message)

/-- A number with its noun, which is in the plural unless the number is one. -/
def counted (n : Nat) (noun : String) : String :=
  toString n ++ " " ++ (if n = 1 then noun else noun ++ "s")

/-- All diagnostics for display: a line for each, and a last one with the totals. -/
def summary (ds : List Diagnostic) : String :=
  let totals := counted (errorCount ds) "error" ++ ", " ++ counted (countOf .warning ds) "warning"
  "\n".intercalate (ds.map (·.summaryLine) ++ [totals])

end CLexer
