import CLexer.Json.Value
import CLexer.Text.Integer

/-!
# Reading JSON

A reader for JSON documents. Beside the standard grammar it takes the three numbers `NaN`,
`Infinity` and `-Infinity`. Of two fields with one name the later value counts, at the place of
the earlier one. A document is read whole: nothing but blanks may follow its value.

An integer must not have more digits than can be read at all, and lists and objects must not nest
too deep. The first thing that is wrong with a document decides what is said of it, so these two
are told apart from a document that breaks the grammar.

The readers below take the characters still to be read and give back what they read with the
characters after it. Values nest, so their reader is bounded by a number of steps; the length of
the document is enough, because a list takes two steps more than what is in it and has two
brackets.
-/

set_option autoImplicit false

namespace CLexer.Json

open CLexer.Text

/-- Why a document is not read. -/
inductive ReadError where
  /-- It breaks the grammar. -/
  | syntaxError
  /-- An integer in it has too many digits. -/
  | tooLong (digits : Nat)
  /-- Its lists and objects nest too deep. -/
  | tooDeep
deriving DecidableEq

/-- A reader of `α`. -/
abbrev Reader (α : Type) := List Char → Except ReadError (α × List Char)

/-- Gives up on a document that breaks the grammar. -/
def refuse {α : Type} : Except ReadError α := .error .syntaxError

/-- The four blanks of JSON. -/
def isGap (c : Char) : Bool :=
  c == ' ' || c == '\t' || c == '\n' || c == '\r'

def skipGap (cs : List Char) : List Char := cs.dropWhile isGap

def readWord (word : List Char) : Reader Unit := fun cs =>
  if word.isPrefixOf cs then .ok ((), cs.drop word.length) else refuse

/-- The number that a run of decimal digits stands for. -/
def digitsValue (ds : List Char) : Nat :=
  ds.foldl (fun n d => n * 10 + (d.toNat - 48)) 0

/-- Reads a fraction and gives its digits, which may be missing. -/
def readFraction (cs : List Char) : List Char × List Char :=
  match cs with
  | '.' :: rest =>
      match rest.span Char.isDigit with
      | ([], _) => ([], cs)
      | found => found
  | _ => ([], cs)

/-- Reads an exponent, which may be missing. -/
def readExponent (cs : List Char) : Option Int × List Char :=
  match cs with
  | e :: rest =>
      if e == 'e' || e == 'E' then
        let (negative, digits) :=
          match rest with
          | '-' :: r => (true, r)
          | '+' :: r => (false, r)
          | _ => (false, rest)
        match digits.span Char.isDigit with
        | ([], _) => (none, cs)
        | (ds, after) =>
            let n : Int := digitsValue ds
            (some (if negative then -n else n), after)
      else (none, cs)
  | [] => (none, cs)

/-- Reads the whole part of a number: a zero, or digits that do not start with one. -/
def readWhole : Reader (List Char)
  | '0' :: rest => .ok (['0'], rest)
  | cs =>
      match cs.span Char.isDigit with
      | ([], _) => refuse
      | found => .ok found

/-- The integer with the given digits. -/
def integerOf (negative : Bool) (digits : List Char) : Except ReadError Number :=
  if maxIntegerDigits < digits.length then .error (.tooLong digits.length)
  else
    let n : Int := digitsValue digits
    .ok (.integer (if negative then -n else n))

/-- The number with the given parts. It is real if it has a fraction or an exponent. -/
def numberOf (negative : Bool) (whole fraction : List Char) (exponent : Option Int) :
    Except ReadError Number :=
  if fraction.isEmpty && exponent.isNone then integerOf negative whole
  else
    .ok (.ofDecimal negative (digitsValue (whole ++ fraction))
      (exponent.getD 0 - fraction.length))

/-- Reads a number without its sign. -/
def readMagnitude (negative : Bool) : Reader Number := fun cs => do
  let (whole, afterWhole) ← readWhole cs
  let (fraction, afterFraction) := readFraction afterWhole
  let (exponent, rest) := readExponent afterFraction
  return (← numberOf negative whole fraction exponent, rest)

def readNumber : Reader Number
  | '-' :: rest =>
      match readWord "Infinity".toList rest with
      | .ok (_, after) => .ok (.infinite true, after)
      | .error _ => readMagnitude true rest
  | cs => readMagnitude false cs

def hexDigitValue (c : Char) : Except ReadError Nat :=
  match hexValue? c with
  | some n => .ok n
  | none => refuse

/-- Reads four hexadecimal digits. -/
def readUnit : Reader Nat
  | a :: b :: c :: d :: rest => do
      let a ← hexDigitValue a
      let b ← hexDigitValue b
      let c ← hexDigitValue c
      let d ← hexDigitValue d
      return (((a * 16 + b) * 16 + c) * 16 + d, rest)
  | _ => refuse

/-- The character that stands for half of a surrogate pair without its other half. -/
def loneSurrogate : Char := '\ufffd'

/-- Is the code unit the first half of a pair? -/
def isHighSurrogate (u : Nat) : Bool := 0xd800 ≤ u && u ≤ 0xdbff

/-- Is the code unit the second half of a pair? -/
def isLowSurrogate (u : Nat) : Bool := 0xdc00 ≤ u && u ≤ 0xdfff

/-- Reads the character that a `\u` escape stands for, which may take two escapes. A code unit that
is half of a pair without its other half is no character, and is read as `loneSurrogate` whichever
it is. So two such units are not told apart: two keywords that differ in them alone are reported as
one that is repeated, where a reader that keeps the units as they are finds two keywords. -/
def readCodePoint : Reader Char := fun cs => do
  let (high, rest) ← readUnit cs
  if isHighSurrogate high then
    match rest with
    | '\\' :: 'u' :: more =>
        let (low, after) ← readUnit more
        if isLowSurrogate low then
          return (Char.ofNat (0x10000 + (high - 0xd800) * 0x400 + (low - 0xdc00)), after)
        else return (loneSurrogate, rest)
    | _ => return (loneSurrogate, rest)
  else if isLowSurrogate high then return (loneSurrogate, rest)
  else return (Char.ofNat high, rest)

/-- Reads what follows the backslash of an escape. -/
def readEscape : Reader Char
  | [] => refuse
  | c :: rest =>
      if c == doubleQuote || c == '\\' || c == '/' then .ok (c, rest)
      else if c == 'b' then .ok ('\x08', rest)
      else if c == 'f' then .ok ('\x0c', rest)
      else if c == 'n' then .ok ('\n', rest)
      else if c == 'r' then .ok ('\r', rest)
      else if c == 't' then .ok ('\t', rest)
      else if c == 'u' then readCodePoint rest
      else refuse

/-- Reads the rest of a text after its opening quote, with the characters read so far given last
one first. Control characters have to be written as escapes. -/
def readTextRest : Nat → List Char → Reader String
  | 0, _, _ => refuse
  | _ + 1, _, [] => refuse
  | steps + 1, done, c :: rest =>
      if c == doubleQuote then .ok (String.ofList done.reverse, rest)
      else if c == '\\' then
        match readEscape rest with
        | .ok (e, after) => readTextRest steps (e :: done) after
        | .error e => .error e
      else if c.toNat < 0x20 then refuse
      else readTextRest steps (c :: done) rest

/-- Reads a text that starts with its opening quote. -/
def readText : Reader String
  | c :: rest => if c == doubleQuote then readTextRest (rest.length + 1) [] rest else refuse
  | [] => refuse

/-- Puts a field into the fields read before it. -/
def putField (fields : List (String × Value)) (name : String) (v : Value) :
    List (String × Value) :=
  if fields.any (·.1 == name) then
    fields.map (fun f => if f.1 == name then (name, v) else f)
  else fields ++ [(name, v)]

/-- How deep lists and objects may nest. -/
def maxDepth : Nat := 980

mutual

/-- Reads a value that starts right here, inside `depth` lists and objects. -/
def readValue : Nat → Nat → Reader Value
  | 0, _, _ => refuse
  | _ + 1, _, [] => refuse
  | steps + 1, depth, c :: rest =>
      if c == doubleQuote then (readText (c :: rest)).map (fun r => (.text r.1, r.2))
      else if c == '[' || c == '\x7b' then
        if maxDepth ≤ depth then .error .tooDeep
        else if c == '[' then
          match skipGap rest with
          | ']' :: after => .ok (.array [], after)
          | inner => readElements steps (depth + 1) [] inner
        else
          match skipGap rest with
          | '\x7d' :: after => .ok (.object [], after)
          | inner => readFields steps (depth + 1) [] inner
      else if c == 'n' then (readWord "ull".toList rest).map (fun r => (.null, r.2))
      else if c == 't' then (readWord "rue".toList rest).map (fun r => (.bool true, r.2))
      else if c == 'f' then (readWord "alse".toList rest).map (fun r => (.bool false, r.2))
      else if c == 'N' then (readWord "aN".toList rest).map (fun r => (.number .nan, r.2))
      else if c == 'I' then
        (readWord "nfinity".toList rest).map (fun r => (.number (.infinite false), r.2))
      else (readNumber (c :: rest)).map (fun r => (.number r.1, r.2))

/-- Reads the elements of a list up to its closing bracket; those before come last one first. -/
def readElements : Nat → Nat → List Value → Reader Value
  | 0, _, _, _ => refuse
  | steps + 1, depth, done, cs =>
      match readValue steps depth cs with
      | .error e => .error e
      | .ok (v, after) =>
          match skipGap after with
          | ',' :: more => readElements steps depth (v :: done) (skipGap more)
          | ']' :: rest => .ok (.array (v :: done).reverse, rest)
          | _ => refuse

/-- Reads the fields of an object up to its closing brace. -/
def readFields : Nat → Nat → List (String × Value) → Reader Value
  | 0, _, _, _ => refuse
  | steps + 1, depth, done, cs =>
      match readText cs with
      | .error e => .error e
      | .ok (name, afterName) =>
          match skipGap afterName with
          | ':' :: beforeValue =>
              match readValue steps depth (skipGap beforeValue) with
              | .error e => .error e
              | .ok (v, after) =>
                  match skipGap after with
                  | ',' :: more => readFields steps depth (putField done name v) (skipGap more)
                  | '\x7d' :: rest => .ok (.object (putField done name v), rest)
                  | _ => refuse
          | _ => refuse

end

def read (cs : List Char) : Except ReadError Value :=
  match readValue (cs.length + 1) 0 (skipGap cs) with
  | .ok (v, rest) => if (skipGap rest).isEmpty then .ok v else refuse
  | .error e => .error e

end CLexer.Json
