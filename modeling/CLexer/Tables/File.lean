import CLexer.Json.Reader
import CLexer.Tables.Listing

/-!
# Table files

Tables can be kept in a JSON document: an object with a field for each table that differs from
the standard one. The entries of reserved words and directives may stand there in any order. A
text stands for the list of its characters, and an object for the list of its field names.
-/

set_option autoImplicit false

namespace CLexer.Tables

/-- The fields that a table file may have. -/
def fieldNames : List String := ["keywords", "operators", "delimiters", "directives"]

/-- The entries that a value stands for. -/
def entries : Json.Value → Except TableFault (List Json.Value)
  | .array es => .ok es
  | .text s => .ok (Listing.ofChars s.toList)
  | .object fields => .ok (Listing.ofTexts (fields.map (·.1)))
  | _ => .error .wrongType

/-- Does every entry have an order with every entry after it? -/
def areOrdered : List Json.Value → Bool
  | [] => true
  | v :: rest => rest.all (fun w => (v.lt? w).isSome) && areOrdered rest

/-- The entries in increasing order, if they have one. -/
def sortedEntries (es : List Json.Value) : Except TableFault (List Json.Value) :=
  if areOrdered es then .ok (es.mergeSort Json.Value.le) else .error .wrongType

/-- The entries of a field that has to increase. -/
def sortedField (fields : List (String × Json.Value)) (name : String)
    (standard : List Json.Value) : Except TableFault (List Json.Value) :=
  match Json.Value.field? fields name with
  | none => .ok standard
  | some v => do sortedEntries (← entries v)

/-- The entries of a field in which no entry has parts of its own. -/
def plainField (fields : List (String × Json.Value)) (name : String)
    (standard : List Json.Value) : Except TableFault (List Json.Value) :=
  match Json.Value.field? fields name with
  | none => .ok standard
  | some v => do
      let es ← entries v
      if es.any Json.Value.isCompound then .error .wrongType else return es

/-- The listing in the fields of a table file. -/
def listing (fields : List (String × Json.Value)) : Except TableFault Listing := do
  let keywords ← sortedField fields "keywords" Listing.standard.keywords
  let operators ← plainField fields "operators" Listing.standard.operators
  let delimiters ← plainField fields "delimiters" Listing.standard.delimiters
  let directives ← sortedField fields "directives" Listing.standard.directives
  return { keywords, operators, delimiters, directives }

/-- The names of fields that name no table, in increasing order. -/
def unknownFields (fields : List (String × Json.Value)) : List String :=
  ((fields.map (·.1)).filter (fun n => !fieldNames.contains n)).mergeSort
    (fun a b => decide (a ≤ b))

/-- The fields of the document in a table file, if they all name tables. -/
def documentFields (path : String) (document : List Char) :
    Except TableFault (List (String × Json.Value)) :=
  match Json.read document with
  | .error .syntaxError => .error (.notJson path)
  | .error (.tooLong digits) => .error (.number (.tooLong digits))
  | .error .tooDeep => .error .tooDeep
  | .ok (.object fields) =>
      match unknownFields fields with
      | [] => .ok fields
      | names => .error (.unknownFields path names)
  | .ok _ => .error (.notObject path)

/-- What comes of reading a table file. -/
structure Loaded where
  /-- Did the document name only tables, so that they were loaded from it? -/
  begun : Bool
  result : Except TableFault Tables

/-- Makes the tables that a table file holds. -/
def ofFile (path : String) (document : List Char) : Loaded :=
  match documentFields path document with
  | .error e => ⟨false, .error e⟩
  | .ok fields => ⟨true, do (← listing fields).check⟩

end CLexer.Tables
