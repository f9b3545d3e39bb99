import CLexer.Scanner
import CLexer.Sink
import CLexer.Text.ByteStream

/-!
# Scanning with sinks

A scan by itself only says what it sees. Here its diagnostics are handed to a chain of sinks as
they come. A sink that refuses one stops the scan at that point, with everything before it done.

The text may come from a file whose bytes do not all make characters. Such a text can be scanned
until a character beyond its last good one is asked for; there the scan stops.
-/

set_option autoImplicit false

namespace CLexer

/-- What stops a scan before its end. -/
inductive Failure where
  | fault (f : Fault)
  /-- A sink refused a diagnostic. -/
  | refused
  /-- The text goes on with bytes that are no characters. -/
  | undecodable (f : Text.Utf8.Fault)
deriving DecidableEq

/-- What came of a scan. -/
structure Report where
  /-- What the outside has seen. -/
  events : List Event
  /-- The sinks afterwards. -/
  chain : Chain
  failure : Option Failure := none

namespace Report

def tokens (r : Report) : List Token := Event.tokens r.events

def notes (r : Report) : List Note := Event.notes r.events

end Report

/-- Events that were handed on, the chain after them, and whether a diagnostic was refused. -/
structure Delivery where
  events : List Event
  chain : Chain
  refused : Bool

/-- Hands the diagnostics among events to a chain, up to the first one that is refused. -/
def deliver (chain : Chain) : List Event → Delivery
  | [] => ⟨[], chain, false⟩
  | .report d :: rest =>
      match chain.report d with
      | (chain', true) => ⟨[], chain', true⟩
      | (chain', false) =>
          let after := deliver chain' rest
          { after with events := .report d :: after.events }
  | e :: rest =>
      let after := deliver chain rest
      { after with events := e :: after.events }

/-- A text to scan: its characters, and what is wrong with the bytes behind them. -/
structure Input where
  chars : List Char
  fault : Option Text.Utf8.Fault := none

namespace Input

/-- The characters of bytes in UTF-8, as far as a reader gets to see them. -/
def ofUtf8 (bytes : List UInt8) : Input :=
  let d := Text.Utf8.decodeStream bytes
  ⟨d.chars, d.fault⟩

/-- The characters of bytes in Latin-1. -/
def ofLatin1 (bytes : List UInt8) : Input := ⟨Text.decodeLatin1 bytes, none⟩

end Input

/-- The events of a scan up to where the input breaks off, and what stopped it there. -/
def cutAtFault (input : Input) (trace : Trace) : List Event × Option Failure :=
  match input.fault with
  | none => (trace.events, trace.fault.map .fault)
  | some f => (trace.events.takeWhile (· ≠ .textEnd), some (.undecodable f))

/-- Scans an input and hands its diagnostics to a chain. -/
def scanInput (input : Input) (tables : Tables) (options : Options) (chain : Chain)
    (source : String := "<input>") : Report :=
  let trace := (Context.ofText input.chars tables options source).scan
  let (events, failure) := cutAtFault input trace
  let d := deliver chain events
  ⟨d.events, d.chain, if d.refused then some .refused else failure⟩

/-- Scans a text and hands its diagnostics to a chain. -/
def scanText (text : String) (tables : Tables) (options : Options) (chain : Chain) : Report :=
  scanInput ⟨text.toList, none⟩ tables options chain

/-- Scans an input with a collector in front of a chain, which gets what the collector takes. -/
def scanCollecting (input : Input) (tables : Tables) (options : Options) (chain : Chain)
    (source : String := "<input>") : Report :=
  scanInput input tables options (.collector options.verbose :: chain) source

end CLexer
