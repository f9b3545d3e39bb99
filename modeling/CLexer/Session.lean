import CLexer.Scanner
import CLexer.Sink

/-!
# Sessions

Tokens can be asked for one at a time. An iterator remembers how far it has come: whether it has
begun, whether it owes the second of two dots, and how many tokens it has handed out. Several
iterators on one scanner share its context, so each of them goes on where the last one stopped.

A session is a number of scanners with the iterators on them, used in any order.
-/

set_option autoImplicit false

namespace CLexer

/-- How far the asking for tokens has come. -/
structure Iterator where
  begun : Bool := false
  /-- Is the second of two dots still to be handed out? -/
  owesDot : Bool := false
  handedOut : Nat := 0
  finished : Bool := false
deriving DecidableEq

structure Pull where
  context : Context
  iterator : Iterator
  events : List Event
  /-- The token, or none once there are no more. -/
  result : Except Fault (Option Token)

namespace Iterator

/-- The note on a scan that begins. -/
def opening (it : Iterator) (source : String) : List Event :=
  if it.begun then [] else [.note (.scanning source)]

/-- The iterator after a token has been handed out. -/
def handOut (it : Iterator) (owesDot : Bool) : Iterator :=
  { it with begun := true, owesDot, handedOut := it.handedOut + 1 }

/-- The iterator after its last answer. -/
def close (it : Iterator) : Iterator := { it with begun := true, finished := true }

/-- Looks for the next token in the text. -/
def pullNext (it : Iterator) (ctx : Context) : Pull :=
  let source := ctx.cursor.source
  let found := ctx.seek
  let events := it.opening source ++ found.events
  match found.result with
  | .error e => ⟨found.context, it.close, events, .error e⟩
  | .ok (some (.token t)) => ⟨found.context, it.handOut false, events ++ [.token t], .ok (some t)⟩
  | .ok (some (.dotPair t)) => ⟨found.context, it.handOut true, events ++ [.token t], .ok (some t)⟩
  | .ok _ =>
      ⟨found.context, it.close, events ++ [.note (.finished source it.handedOut)], .ok none⟩

def pull (it : Iterator) (ctx : Context) : Pull :=
  if it.finished then ⟨ctx, it, [], .ok none⟩
  else if it.owesDot then
    let t := Yield.secondDot ctx.start
    ⟨ctx, it.handOut false, [.token t], .ok (some t)⟩
  else it.pullNext ctx

end Iterator

/-- A scanner in a session, with the collector of its diagnostics. -/
structure Seat where
  context : Context
  collector : Sink

/-- A seat in front of a text. -/
def Seat.ofText (text : List Char) (tables : Tables) (options : Options) : Seat where
  context := .ofText text tables options
  collector := .collector options.verbose

/-- Scanners and the iterators on them, each with the number of its scanner. -/
structure Session where
  seats : List Seat
  iterators : List (Nat × Iterator) := []

namespace Session

/-- Makes a new iterator on a scanner. Its number is the number of iterators before it. -/
def iterate (s : Session) (seat : Nat) : Session :=
  { s with iterators := s.iterators ++ [(seat, {})] }

/-- The answer of an iterator to the question for a token. -/
structure Answer where
  session : Session
  /-- The token, or none once there are no more. -/
  result : Except Fault (Option Token)
  /-- The diagnostics that the collector of the scanner took meanwhile. -/
  diagnostics : List Diagnostic
  /-- The position of the cursor of the scanner. -/
  position : Position

def collect (sink : Sink) (ds : List Diagnostic) : Sink :=
  ds.foldl (fun s d => if s.admits d then s.keep d else s) sink

/-- Asks an iterator for a token. There is no answer if there is no such iterator or scanner. -/
def pull (s : Session) (iterator : Nat) : Option Answer := do
  let (number, it) ← s.iterators[iterator]?
  let seat ← s.seats[number]?
  let p := it.pull seat.context
  let reports := Event.reports p.events
  let seat' : Seat := ⟨p.context, collect seat.collector reports⟩
  return {
    session := {
      seats := s.seats.set number seat'
      iterators := s.iterators.set iterator (number, p.iterator) }
    result := p.result
    diagnostics := reports.filter seat.collector.admits
    position := p.context.cursor.position }

end Session

end CLexer
