/-!
# Binary floating point numbers

The numbers of the IEEE 754 format with 64 bits, given by sign, significand and exponent rather
than by their bits. All arithmetic on them here is exact arithmetic on natural numbers, followed by
one rounding to the nearest number of the format, ties going to the even significand.
-/

namespace SchemaForms

/-- A number of the 64 bit binary format: `finite s m e` has the magnitude `m · 2 ^ e`. -/
inductive Binary64 where
  | nan
  | infinite (negative : Bool)
  | finite (negative : Bool) (significand : Nat) (exponent : Int)
deriving DecidableEq, Repr, Inhabited

namespace Binary64

def minExponent : Int := -1074

def maxExponent : Int := 971

/-- The quotient rounded to the nearest integer, a tie going to the even one. -/
def divideHalfEven (num den : Nat) : Nat :=
  let quotient := num / den
  let rest := num % den
  if 2 * rest < den ∨ (2 * rest = den ∧ quotient % 2 = 0) then quotient else quotient + 1

/-- The fraction `num / den` divided by `2 ^ e`, again as a fraction. -/
def scale (num den : Nat) (e : Int) : Nat × Nat :=
  match e with
  | .ofNat k => (num, den * Nat.pow 2 k)
  | .negSucc k => (num * Nat.pow 2 (k + 1), den)

/-- The exponent at which a positive fraction has 53 significant bits, or the least one of the
format if that is greater. -/
def exponentOf (num den : Nat) : Int :=
  let guess : Int := (Nat.log2 num : Int) - (Nat.log2 den : Int) - 52
  let (n, d) := scale num den guess
  max minExponent (if n < Nat.pow 2 52 * d then guess - 1 else guess)

/-- The number of the format nearest to a fraction. -/
def ofRatio (negative : Bool) (num den : Nat) : Binary64 :=
  if num = 0 then .finite negative 0 minExponent
  else
    let e := exponentOf num den
    let (n, d) := scale num den e
    let m := divideHalfEven n d
    let (m, e) := if m = Nat.pow 2 53 then (Nat.pow 2 52, e + 1) else (m, e)
    if maxExponent < e then .infinite negative else .finite negative m e

/-- The number of the format nearest to an integer, unless the integer is too large for it. -/
def ofInt? (n : Int) : Option Binary64 :=
  match ofRatio (decide (n < 0)) n.natAbs 1 with
  | .infinite _ => none
  | x => some x

/-- The number of the format nearest to `digits · 10 ^ power`. Powers so large or so small that
they alone decide the result are not computed. -/
def ofDecimal (negative : Bool) (digits : Nat) (power : Int) : Binary64 :=
  if digits = 0 then .finite negative 0 minExponent
  else match power with
    | .ofNat k => if 400 < k then .infinite negative else ofRatio negative (digits * Nat.pow 10 k) 1
    | .negSucc k =>
      if Nat.log2 digits + 400 < k then .finite negative 0 minExponent
      else ofRatio negative digits (Nat.pow 10 (k + 1))

/-- The integer that a finite number without fraction is. -/
def toInt? : Binary64 → Option Int
  | .finite negative m e =>
    let magnitude? : Option Nat := match e with
      | .ofNat k => some (m * Nat.pow 2 k)
      | .negSucc k => if m % Nat.pow 2 (k + 1) = 0 then some (m / Nat.pow 2 (k + 1)) else none
    magnitude?.map fun n => if negative then -(n : Int) else n
  | _ => none

def bits : Binary64 → Nat
  | .nan => 0x7FF8000000000000
  | .infinite negative => signBit negative + 0x7FF0000000000000
  | .finite negative m e =>
    if m < Nat.pow 2 52 then signBit negative + m
    else signBit negative + (e + 1075).toNat * Nat.pow 2 52 + (m - Nat.pow 2 52)
where
  /-- The bit of a negative number. -/
  signBit (negative : Bool) : Nat := if negative then Nat.pow 2 63 else 0

end Binary64

end SchemaForms
