/-!
# JSON numbers

A number that is written with digits only is an integer. One with a fraction or an exponent is
real: it stands for the double that is nearest to it, and of two that are equally near for the
one whose last bit is zero. A number beyond the greatest double is infinite.

Every finite double is a whole number of steps of `2 ^ -1074`, so that number of steps is what is
kept of it. Numbers are then compared as integers, without any rounding.
-/

set_option autoImplicit false

namespace CLexer.Json

inductive Number where
  | integer (n : Int)
  /-- The double that is `steps * 2 ^ -1074`. -/
  | real (steps : Int)
  | infinite (negative : Bool)
  | nan
deriving DecidableEq

namespace Number

/-! ## Rounding -/

/-- The quotient rounded to the nearest whole number, and to the even one of two that are equally
near. -/
def roundDiv (num den : Nat) : Nat :=
  if den < 2 * (num % den) ∨ (2 * (num % den) = den ∧ num / den % 2 = 1) then num / den + 1
  else num / den

/-- How many steps there are in one. -/
def stepsPerUnit : Nat := Nat.pow 2 1074

/-- The number of steps that no double reaches. -/
def stepsLimit : Nat := Nat.pow 2 2098

/-- The distance of two doubles next to each other, of which the lower one has at most `steps`
steps: a double has 53 bits. -/
def spacing (steps : Nat) : Nat := Nat.pow 2 (steps.log2 - 52)

/-- The number of steps of the double nearest to `num / den` steps. -/
def roundSteps (num den : Nat) : Nat :=
  let gap := spacing (num / den)
  roundDiv num (den * gap) * gap

/-- How many decimal digits `mantissa * 10 ^ exponent` has in front of its point. -/
def magnitude (mantissa : Nat) (exponent : Int) : Int :=
  (Nat.toDigits 10 mantissa).length + exponent

/-- The steps of the double nearest to `mantissa * 10 ^ exponent`; none if it is infinite. What is
far from every double is told by its magnitude, before any power is taken. -/
def decimalSteps (mantissa : Nat) (exponent : Int) : Option Nat :=
  if mantissa = 0 ∨ magnitude mantissa exponent < -330 then some 0
  else if 330 < magnitude mantissa exponent then none
  else
    let steps :=
      if 0 ≤ exponent then roundSteps (mantissa * Nat.pow 10 exponent.toNat * stepsPerUnit) 1
      else roundSteps (mantissa * stepsPerUnit) (Nat.pow 10 (-exponent).toNat)
    if steps < stepsLimit then some steps else none

/-- The double nearest to `mantissa * 10 ^ exponent`, or to its negative. -/
def ofDecimal (negative : Bool) (mantissa : Nat) (exponent : Int) : Number :=
  match decimalSteps mantissa exponent with
  | some steps => .real (if negative then -(steps : Int) else steps)
  | none => .infinite negative

/-! ## Order -/

/-- The number of steps of a number that is finite. -/
def steps? : Number → Option Int
  | .integer n => some (n * stepsPerUnit)
  | .real steps => some steps
  | .infinite _ => none
  | .nan => none

/-- The order of numbers by value. A number that is none is below nothing. -/
def lt (a b : Number) : Bool :=
  match a, b with
  | .nan, _ => false
  | _, .nan => false
  | .infinite x, .infinite y => x && !y
  | .infinite x, _ => x
  | _, .infinite y => !y
  | a, b =>
      match a.steps?, b.steps? with
      | some x, some y => decide (x < y)
      | _, _ => false

/-- Do numbers have the same value? What is no number is only the same as itself. -/
def same (a b : Number) : Bool :=
  match a, b with
  | .nan, .nan => true
  | .nan, _ => false
  | _, .nan => false
  | a, b => !a.lt b && !b.lt a

/-! ## Writing -/

/-- The mantissa of `steps` steps as a decimal number of 1074 places. -/
def decimalMantissa (steps : Int) : Int := steps * (Nat.pow 5 1074 : Nat)

/-- A number in digits, with its exact value. -/
def write : Number → String
  | .integer n => toString n
  | .real steps => toString (decimalMantissa steps) ++ "e-1074"
  | .infinite negative => if negative then "-Infinity" else "Infinity"
  | .nan => "NaN"

end Number

end CLexer.Json
