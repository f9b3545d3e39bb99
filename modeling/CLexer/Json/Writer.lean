import CLexer.Json.Value
import CLexer.Text.Class
import CLexer.Text.Hex

/-!
# Writing JSON

JSON documents laid out for reading: each element and each field on a line of its own, indented
by two spaces for every level, and nothing but ASCII. A character outside ASCII is written as one
or two escapes of a code unit.
-/

set_option autoImplicit false

namespace CLexer.Json

open CLexer.Text

/-- The escape of one code unit. -/
def unitEscape (u : Nat) : List Char := '\\' :: 'u' :: hexDigits 4 u

def escapeChar (c : Char) : List Char :=
  if c == doubleQuote || c == '\\' then ['\\', c]
  else if c == '\n' then ['\\', 'n']
  else if c == '\r' then ['\\', 'r']
  else if c == '\t' then ['\\', 't']
  else if c == '\x08' then ['\\', 'b']
  else if c == '\x0c' then ['\\', 'f']
  else if 0x20 ≤ c.toNat && c.toNat ≤ 0x7e then [c]
  else if c.toNat < 0x10000 then unitEscape c.toNat
  else
    let n := c.toNat - 0x10000
    unitEscape (0xd800 + n / 0x400) ++ unitEscape (0xdc00 + n % 0x400)

/-- A text in its quotes. -/
def writeText (s : String) : String :=
  String.ofList (doubleQuote :: s.toList.flatMap escapeChar ++ [doubleQuote])

/-- The start of a line at a level. -/
def newLine (level : Nat) : String :=
  "\n" ++ String.ofList (List.replicate (2 * level) ' ')

mutual

/-- A value whose first line is already indented to `level`. -/
def writeAt (level : Nat) : Value → String
  | .null => "null"
  | .bool b => if b then "true" else "false"
  | .number n => n.write
  | .text s => writeText s
  | .array [] => "[]"
  | .array (v :: vs) =>
      "[" ++ newLine (level + 1) ++ writeAt (level + 1) v ++ writeElements (level + 1) vs ++
        newLine level ++ "]"
  | .object [] => "\x7b\x7d"
  | .object (f :: fs) =>
      "\x7b" ++ newLine (level + 1) ++ writeText f.1 ++ ": " ++ writeAt (level + 1) f.2 ++
        writeFields (level + 1) fs ++ newLine level ++ "\x7d"

/-- The elements of a list after its first one. -/
def writeElements (level : Nat) : List Value → String
  | [] => ""
  | v :: vs => "," ++ newLine level ++ writeAt level v ++ writeElements level vs

/-- The fields of an object after its first one. -/
def writeFields (level : Nat) : List (String × Value) → String
  | [] => ""
  | f :: fs =>
      "," ++ newLine level ++ writeText f.1 ++ ": " ++ writeAt level f.2 ++ writeFields level fs

end

/-- A whole document, without a line end after it. -/
def write (v : Value) : String := writeAt 0 v

end CLexer.Json
