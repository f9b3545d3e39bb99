import CLexer.Problem
import CLexer.Tables
import CLexer.Text.Integer

/-!
# Listings

A listing is what tables are made from: four lists of entries that nobody has checked. Entries are
texts as a rule, but a list that comes from a file may hold anything.

The checks go in a fixed order: reserved words and directives have to increase, and strictly so;
operators and delimiters have to be single characters; they must have none in common; directives
have to be named.
-/

set_option autoImplicit false

namespace CLexer

inductive TableName where
  | keywords
  | operators
  | delimiters
  | directives
deriving DecidableEq

def TableName.text : TableName → String
  | .keywords => "keywords"
  | .operators => "operators"
  | .delimiters => "delimiters"
  | .directives => "directives"

/-- Why tables cannot be made. -/
inductive TableFault where
  | unsorted (table : TableName)
  | repeated (table : TableName)
  | notSingle (table : TableName) (entry : String)
  | shared (chars : List Char)
  | unnamed (entry : String)
  /-- The file is no JSON document. -/
  | notJson (path : String)
  /-- An integer in the document cannot be read. -/
  | number (cause : Text.IntegerError)
  | tooDeep
  /-- The document is no object. -/
  | notObject (path : String)
  /-- The document has fields that name no table. -/
  | unknownFields (path : String) (names : List String)
  /-- An entry, or what stands for a list of entries, is of a type that cannot be used there. -/
  | wrongType
  /-- A directive is no text. -/
  | notText
deriving DecidableEq

namespace TableFault

def charText (c : Char) : String := String.ofList [c]

/-- The problem that a fault amounts to. A type that cannot be used has none: it is a fault of
whoever wrote the listing, and nothing more is said about it. An integer that cannot be read and a
document that nests too deep are no problems of the tables either. -/
def problem? : TableFault → Option Problem
  | .unsorted t => some (.table t.text "entries must be sorted")
  | .repeated t => some (.table t.text "entries must be unique")
  | .notSingle t e =>
      some (.table t.text ("entry " ++ Text.quote e ++ " is not a single character"))
  | .shared cs =>
      some (.table "delimiters"
        ("characters " ++ Text.quoteList (cs.map charText) ++ " are also operators"))
  | .unnamed e =>
      some (.table "directives" ("entry " ++ Text.quote e ++ " must be '#' followed by a name"))
  | .notJson path => some (.table "JSON" (path ++ ": <json error>"))
  | .notObject path => some (.table "JSON" (path ++ ": top level must be an object"))
  | .unknownFields path names =>
      some (.table "JSON" (path ++ ": unknown keys " ++ Text.quoteList names))
  | .number _ => none
  | .tooDeep => none
  | .wrongType => none
  | .notText => none

end TableFault

/-- Unchecked tables. -/
structure Listing where
  keywords : List Json.Value
  operators : List Json.Value
  delimiters : List Json.Value
  directives : List Json.Value

namespace Listing

/-- Entries that are texts. -/
def ofTexts (ss : List String) : List Json.Value := ss.map .text

/-- Entries that are single characters. -/
def ofChars (cs : List Char) : List Json.Value := ofTexts (cs.map TableFault.charText)

/-- The listing of the standard tables. -/
def standard : Listing where
  keywords := ofTexts Tables.standardKeywords
  operators := ofChars Tables.standardOperators
  delimiters := ofChars Tables.standardDelimiters
  directives := ofTexts Tables.standardDirectives

/-- The entries that are texts. -/
def texts (es : List Json.Value) : List String := es.filterMap Json.Value.text?

/-- The entries that are no texts. -/
def nonTexts (es : List Json.Value) : List Json.Value := es.filter (·.text?.isNone)

/-- Are two entries the same? -/
def hasTwins : List Json.Value → Bool
  | v :: rest => rest.any v.same || hasTwins rest
  | [] => false

/-- Checks that the entries which are no texts can be told apart from each other. -/
def checkNonTexts (name : TableName) (es : List Json.Value) : Except TableFault Unit :=
  if es.any Json.Value.isCompound then .error .wrongType
  else if hasTwins es then .error (.repeated name)
  else .ok ()

/-- The single characters that entries stand for, each of them once. -/
def singles (name : TableName) : List Json.Value → Except TableFault (List Char)
  | [] => .ok []
  | .text s :: rest =>
      match s.toList with
      | [c] => do
          let cs ← singles name rest
          return if cs.contains c then cs else c :: cs
      | _ => .error (.notSingle name s)
  | _ :: _ => .error .wrongType

/-- Does no word stand behind the next one? -/
def isSorted : List String → Bool
  | a :: b :: rest => !decide (b < a) && isSorted (b :: rest)
  | _ => true

/-- Checks a list of words that has to increase. -/
def checkIncreasing (name : TableName) (es : List Json.Value) :
    Except TableFault { ws : List String // isIncreasing ws = true } :=
  if isSorted (texts es) then
    match checkNonTexts name (nonTexts es) with
    | .error e => .error e
    | .ok () =>
        if h : isIncreasing (texts es) = true then .ok ⟨texts es, h⟩
        else .error (.repeated name)
  else .error (.unsorted name)

/-- Characters in increasing order. -/
def sortChars (cs : List Char) : List Char :=
  cs.mergeSort (fun a b => a.toNat.ble b.toNat)

/-- Checks that the tables have no character in common and that the directives are named, and
makes tables of words and characters. -/
def assemble (l : Listing) (keywords directives : { ws : List String // isIncreasing ws = true })
    (operators delimiters : List Char) : Except TableFault Tables :=
  if h : sharedChars operators delimiters = [] then
    if !(nonTexts l.directives).isEmpty then .error .notText
    else if hn : directives.1.all isDirectiveName = true then
      .ok {
        keywords := keywords.1
        operators := operators
        delimiters := delimiters
        directives := directives.1
        idle := nonTexts l.keywords
        keywords_increase := pairwise_of_isIncreasing keywords.2
        directives_increase := pairwise_of_isIncreasing directives.2
        operators_disjoint := not_mem_of_shared_eq_nil h
        directives_named := List.all_eq_true.mp hn }
    else .error (.unnamed ((directives.1.find? (fun d => !isDirectiveName d)).getD ""))
  else .error (.shared (sortChars (sharedChars operators delimiters)))

/-- Makes tables from a listing. -/
def check (l : Listing) : Except TableFault Tables := do
  let keywords ← checkIncreasing .keywords l.keywords
  let directives ← checkIncreasing .directives l.directives
  let operators ← singles .operators l.operators
  let delimiters ← singles .delimiters l.delimiters
  l.assemble keywords directives operators delimiters

end Listing

end CLexer
