import CLexer.Diagnostic

/-!
# Sinks

Where diagnostics go. A sink takes a diagnostic unless it is a debugging one and the sink is not
verbose; what a sink has taken it passes on to the next sink of its chain. Collectors and loggers
keep what they take. A sink that is only the outline of one has no way to take anything: a
diagnostic that reaches it is refused, and goes no further.
-/

set_option autoImplicit false

namespace CLexer

/-- What a sink does with what it takes. -/
inductive SinkRole where
  | collector
  | logger
  | outline
deriving DecidableEq

structure Sink where
  role : SinkRole
  /-- Are debugging diagnostics taken as well? -/
  verbose : Bool := false
  /-- What the sink has taken, in order. -/
  taken : Array Diagnostic := #[]
deriving DecidableEq

namespace Sink

/-- Does the sink let the diagnostic in? -/
def admits (s : Sink) (d : Diagnostic) : Bool :=
  s.verbose || decide (d.severity ≠ .debug)

/-- The sink with one more diagnostic. -/
def keep (s : Sink) (d : Diagnostic) : Sink := { s with taken := s.taken.push d }

def clear (s : Sink) : Sink := { s with taken := #[] }

def diagnostics (s : Sink) : List Diagnostic := s.taken.toList

def collector (verbose : Bool) : Sink := { role := .collector, verbose }

end Sink

/-- A chain of sinks, first one first. -/
abbrev Chain := List Sink

namespace Chain

/-- Hands a diagnostic to the first sink of a chain. The chain afterwards, and whether the
diagnostic was refused on its way. -/
def report (d : Diagnostic) : Chain → Chain × Bool
  | [] => ([], false)
  | s :: rest =>
      if s.admits d then
        if s.role = .outline then (s :: rest, true)
        else
          let (rest', refused) := report d rest
          (s.keep d :: rest', refused)
      else (s :: rest, false)

/-- The sinks that take a diagnostic which is handed to the first one. -/
def takers (d : Diagnostic) (chain : Chain) : Chain :=
  chain.takeWhile fun s => s.admits d && decide (s.role ≠ .outline)

/-- The takers of a diagnostic are the ones that keep it, and the sinks behind them stay as they
were. -/
theorem fst_report (d : Diagnostic) (chain : Chain) :
    (report d chain).1 =
      (chain.takers d).map (·.keep d) ++ chain.drop (chain.takers d).length := by
  induction chain with
  | nil => rfl
  | cons s rest ih =>
    unfold report
    cases hadmits : s.admits d with
    | false => simp [takers, hadmits]
    | true =>
      by_cases hrole : s.role = .outline
      · simp [takers, hrole]
      · have htakers : takers d (s :: rest) = s :: takers d rest := by
          simp [takers, hadmits, hrole]
        rw [htakers]
        simp [hrole, ih]

/-- Hands a diagnostic to the sink at an index. -/
def reportAt (chain : Chain) (i : Nat) (d : Diagnostic) : Chain × Bool :=
  let (tail', refused) := report d (chain.drop i)
  (chain.take i ++ tail', refused)

/-- Changes the sink at an index. -/
def modifyAt (chain : Chain) (i : Nat) (f : Sink → Sink) : Chain := chain.modify i f

end Chain

end CLexer
