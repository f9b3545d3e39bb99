import CLexer.Text.Quoted

/-!
# Reading integers

An integer as a person may type it: blanks around it, one optional sign, then decimal digits of
any script, with single underscores between them if wanted. A number with too many digits is
refused as such even if something that does not belong to it follows them.
-/

set_option autoImplicit false

namespace CLexer.Text

/-- The code points of the digit zero in every script that has decimal digits. The nine digits
after it follow in order. -/
def decimalZeros : List Nat :=
  [ 0x30, 0x660, 0x6f0, 0x7c0, 0x966, 0x9e6, 0xa66, 0xae6, 0xb66, 0xbe6, 0xc66, 0xce6, 0xd66,
    0xde6, 0xe50, 0xed0, 0xf20, 0x1040, 0x1090, 0x17e0, 0x1810, 0x1946, 0x19d0, 0x1a80, 0x1a90,
    0x1b50, 0x1bb0, 0x1c40, 0x1c50, 0xa620, 0xa8d0, 0xa900, 0xa9d0, 0xa9f0, 0xaa50, 0xabf0,
    0xff10, 0x104a0, 0x10d30, 0x11066, 0x110f0, 0x11136, 0x111d0, 0x112f0, 0x11450, 0x114d0,
    0x11650, 0x116c0, 0x11730, 0x118e0, 0x11950, 0x11c50, 0x11d50, 0x11da0, 0x16a60, 0x16ac0,
    0x16b50, 0x1d7ce, 0x1d7d8, 0x1d7e2, 0x1d7ec, 0x1d7f6, 0x1e140, 0x1e2f0, 0x1e950, 0x1fbf0 ]

/-- The value of a decimal digit of any script. -/
def decimalValue? (c : Char) : Option Nat :=
  (decimalZeros.find? (fun z => z ≤ c.toNat && c.toNat < z + 10)).map (c.toNat - ·)

/-- The blanks that may stand around an integer: the ASCII ones and the spaces and line
separators outside ASCII. -/
def isWideBlank (c : Char) : Bool :=
  isBlank c ||
    [0x85, 0xa0, 0x1680, 0x2028, 0x2029, 0x202f, 0x205f, 0x3000].contains c.toNat ||
    (0x2000 ≤ c.toNat && c.toNat ≤ 0x200a)

/-- Why a text is not read as an integer. -/
inductive IntegerError where
  /-- The text does not have the form of an integer. -/
  | malformed (text : String)
  /-- The text has more digits than are read. -/
  | tooLong (digits : Nat)
deriving DecidableEq

/-- The greatest number of digits that is read. -/
def maxIntegerDigits : Nat := 4300

/-- How much of a quoted text is shown in an error. -/
def maxShownChars : Nat := 200

def IntegerError.message : IntegerError → String
  | .malformed text =>
      "invalid literal for int() with base 10: " ++
        String.ofList ((quote text).toList.take maxShownChars)
  | .tooLong digits =>
      "Exceeds the limit (" ++ toString maxIntegerDigits ++
        " digits) for integer string conversion: value has " ++ toString digits ++
        " digits; use sys.set_int_max_str_digits() to increase the limit"

/-- May the character stand in a run of digits? -/
def isRunChar (c : Char) : Bool := c == '_' || (decimalValue? c).isSome

/-- Does every underscore in a run have a digit right behind it? -/
def isWellSpaced : List Char → Bool
  | [] => true
  | ['_'] => false
  | '_' :: '_' :: _ => false
  | _ :: rest => isWellSpaced rest

def runDigits (run : List Char) : List Nat := run.filterMap decimalValue?

/-- The magnitude behind a sign: a run of digits that does not start with an underscore, and
blanks. The length of the run is looked at before what follows it. The argument `text` is the
whole that is read, for the error. -/
def parseMagnitude (text : String) (cs : List Char) : Except IntegerError Nat :=
  let run := cs.takeWhile isRunChar
  let digits := runDigits run
  if cs.head? = some '_' ∨ isWellSpaced run = false then .error (.malformed text)
  else if maxIntegerDigits < digits.length then .error (.tooLong digits.length)
  else if digits.isEmpty then .error (.malformed text)
  else if ((cs.dropWhile isRunChar).dropWhile isWideBlank).isEmpty then
    .ok (digits.foldl (fun n d => n * 10 + d) 0)
  else .error (.malformed text)

def parseInteger (text : String) : Except IntegerError Int :=
  match text.toList.dropWhile isWideBlank with
  | '-' :: rest => (parseMagnitude text rest).map (fun n => -(n : Int))
  | '+' :: rest => (parseMagnitude text rest).map Int.ofNat
  | cs => (parseMagnitude text cs).map Int.ofNat

end CLexer.Text
