import CLexer.Diagnostic
import CLexer.Token

/-!
# Events

All that a scan lets the outside see, in the order in which it happens: tokens, diagnostics, notes
for a log, and the moment at which the end of the text is seen. What becomes of an event is not
decided here.
-/

set_option autoImplicit false

namespace CLexer

/-- A remark on the course of a scan, for a log. -/
inductive Note where
  | scanning (source : String)
  | finished (source : String) (tokens : Nat)
  | scanned (token : Token)
  | grown (before after : Nat)
  | loadingTables (path : String)
deriving DecidableEq

namespace Note

/-- The part of the program that a note is about. -/
def channel : Note → String
  | .scanning _ => "cscanner.scanner"
  | .finished .. => "cscanner.scanner"
  | .scanned _ => "cscanner.context"
  | .grown .. => "cscanner.buffer"
  | .loadingTables _ => "cscanner.tables"

def message : Note → String
  | .scanning source => "Scanning " ++ source
  | .finished source tokens => "Finished " ++ source ++ ": " ++ toString tokens ++ " tokens"
  | .scanned t => "Scanned " ++ t.describe
  | .grown before after =>
      "Growing scan buffer from " ++ toString before ++ " to " ++ toString after
  | .loadingTables path => "Loading classifier tables from " ++ path

def level : String := "DEBUG"

end Note

/-- Something that a scan lets the outside see. -/
inductive Event where
  | note (n : Note)
  | report (d : Diagnostic)
  | token (t : Token)
  /-- The end of the text is seen for the first time. -/
  | textEnd
deriving DecidableEq

namespace Event

def token? : Event → Option Token
  | .token t => some t
  | _ => none

def report? : Event → Option Diagnostic
  | .report d => some d
  | _ => none

def note? : Event → Option Note
  | .note n => some n
  | _ => none

def tokens (es : List Event) : List Token := es.filterMap token?

def reports (es : List Event) : List Diagnostic := es.filterMap report?

def notes (es : List Event) : List Note := es.filterMap note?

end Event

end CLexer
