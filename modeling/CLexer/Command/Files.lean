/-!
# Paths and files

A path is a text with slashes. What the program needs to know about files is what a path leads to;
that is a function, `Lookup`, and where its answers come from does not matter.

A file tree is such a function in memory: files with their bytes and folders, each under the names
that lead to it from the root, and the folder in which paths start that do not start with a slash.
-/

set_option autoImplicit false

namespace CLexer.Command

/-! ## Paths -/

/-- The names between the slashes of a path. -/
def pathNames (path : String) : List String :=
  (path.toList.splitOn '/').map String.ofList

/-- The slashes that a path starts with: two of them are kept apart from one, more are not. -/
def pathRoot : List Char → String
  | '/' :: '/' :: '/' :: _ => "/"
  | '/' :: '/' :: _ => "//"
  | '/' :: _ => "/"
  | _ => ""

/-- The plain form of a path, without empty names and without names for the folder itself. -/
def plainPath (path : String) : String :=
  let names := (pathNames path).filter (fun n => n ≠ "" ∧ n ≠ ".")
  let plain := pathRoot path.toList ++ "/".intercalate names
  if plain.isEmpty then "." else plain

/-! ## What paths lead to -/

/-- The names that lead to a file. Two paths lead to one file if their keys are equal. -/
abbrev Key := List String

/-- What a path leads to. -/
inductive Target where
  | file (key : Key) (bytes : List UInt8)
  | folder
  /-- Nothing, in a folder that exists. -/
  | vacant (key : Key)
  /-- Nothing, and there is no such folder either. -/
  | missing
  /-- The path goes on behind a file, or it is too long to be followed. -/
  | blocked

/-- What every path leads to. -/
abbrev Lookup := String → Target

/-! ## Trees -/

/-- What can be found under a key. -/
inductive Node where
  | file (bytes : List UInt8)
  | folder

/-- All that can be found. -/
structure FileTree where
  entries : List (Key × Node)
  /-- The working folder. -/
  home : Key := []

namespace FileTree

/-- The greatest number of bytes in a name. -/
def nameLimit : Nat := 255

/-- The greatest number of bytes in a path. -/
def pathLimit : Nat := 4095

/-- Does the key lead to a folder on the way to something? -/
def isOnTheWay (t : FileTree) (key : Key) : Bool :=
  key.isPrefixOf t.home || t.entries.any (fun e => key.isPrefixOf e.1)

/-- What there is under a key. The names in front of an entry lead to folders. -/
def node? (t : FileTree) (key : Key) : Option Node :=
  match t.entries.find? (·.1 == key) with
  | some e => some e.2
  | none => if t.isOnTheWay key then some .folder else none

/-- Follows names from the folder with the given key. Above the root there is the root. -/
def follow (t : FileTree) (key : Key) : List String → Target
  | [] => .folder
  | name :: rest =>
      if name = "" ∨ name = "." then t.follow key rest
      else if name = ".." then t.follow key.dropLast rest
      else if nameLimit < name.utf8ByteSize then .blocked
      else
        let here := key ++ [name]
        match t.node? here with
        | some .folder => t.follow here rest
        | some (.file bytes) => if rest.isEmpty then .file here bytes else .blocked
        | none => if rest.isEmpty then .vacant here else .missing

/-- What a path leads to. The empty path leads nowhere. -/
def resolve (t : FileTree) (path : String) : Target :=
  if path.isEmpty then .missing
  else if pathLimit < path.utf8ByteSize then .blocked
  else if path.toList.head? = some '/' then t.follow [] (pathNames path)
  else t.follow t.home (pathNames path)

/-- The names that lead to a file from the working folder, if it lies there. -/
def nameAtHome? (t : FileTree) (key : Key) : Option String :=
  if t.home.isPrefixOf key then some ("/".intercalate (key.drop t.home.length)) else none

/-- Would the file be new or different with this text in it? -/
def isChange (t : FileTree) (key : Key) (text : String) : Bool :=
  match t.entries.find? (·.1 == key) with
  | some (_, .file bytes) => bytes != text.toUTF8.toList
  | _ => true

end FileTree

end CLexer.Command
