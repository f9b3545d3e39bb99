import CLexer.Command.Run

/-!
# The command

The only part of the program that touches the world: it looks up the paths that the arguments
name, runs the command on what it finds, and carries out the effects.
-/

set_option autoImplicit false

namespace CLexer.Command

/-- The part of a path in front of its last name. -/
def parentPath (path : String) : String :=
  match (pathNames path).dropLast with
  | [] => "."
  | [""] => "/"
  | names => "/".intercalate names

/-- What a path leads to when there is nothing under it. -/
def lookUpVacancy (path : String) : IO Target := do
  try
    if ← (← IO.FS.realPath (parentPath path)).isDir then return .vacant [path]
    else return .missing
  catch _ => return .missing

def lookUp (path : String) : IO Target := do
  try
    let real ← IO.FS.realPath path
    if ← real.isDir then return .folder
    else if ← real.pathExists then
      return .file [real.toString] (← IO.FS.readBinFile path).toList
    else lookUpVacancy path
  catch _ => lookUpVacancy path

def Request.paths (r : Request) : List String :=
  [r.input] ++ r.tables.toList ++ r.output.toList ++ r.output.toList.map plainPath

def argumentPaths (args : List String) : List String :=
  match demand args with
  | some (.scan r) => r.paths
  | _ => []

/-- The variables that the command looks at. -/
def variableNames : List String :=
  [ "CSCAN_IDENTIFIER_MAX_LEN", "CSCAN_BUFFER_CAPACITY", "CSCAN_MAX_LEXEME_LEN",
    "CSCAN_VERBOSE", "CSCAN_EMIT_MULTICHAR" ]

/-- The variables that are set. -/
def readEnvironment : IO Environment :=
  variableNames.filterMapM fun name => do
    return (← IO.getEnv name).map (name, ·)

/-- Carries out the effects of a run. -/
def Effects.perform (e : Effects) : IO UInt32 := do
  if let some (key, text) := e.written then IO.FS.writeFile ("/".intercalate key) text
  IO.print e.stdout
  IO.eprint e.stderr
  return e.exit.toUInt32

end CLexer.Command

open CLexer.Command in
def main (args : List String) : IO UInt32 := do
  let targets ← (argumentPaths args).mapM fun path => return (path, ← lookUp path)
  let look : Lookup := fun path => (targets.lookup path).getD .missing
  (run args (← readEnvironment) look).perform
