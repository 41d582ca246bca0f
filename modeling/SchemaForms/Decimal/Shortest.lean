import SchemaForms.Decimal.Binary64

/-!
# The shortest decimal of a binary number

A finite number of the 64 bit format is written with the fewest decimal digits from which it can
be read back, and of those decimals with the nearest one. The reals that round to a number form an
interval around it, whose ends belong to it exactly if the significand is even. A grid of decimals
has a point in the interval only if one of the two points next to the number lies in it, so for
each count of digits only two decimals have to be tried.
-/

namespace SchemaForms

/-- A decimal `digits · 10 ^ power`. -/
structure Decimal where
  digits : Nat
  power : Int
deriving DecidableEq, Repr

namespace Decimal

/-- The reals that round to a positive number, as fractions over one denominator: the number
itself, the ends of the interval, and whether the ends belong to it. -/
structure Interval where
  low : Nat
  value : Nat
  high : Nat
  den : Nat
  closed : Bool

/-- The reals that round to `m · 2 ^ e`. Below a power of two the numbers lie half as far apart as
above it. -/
def Interval.around (m : Nat) (e : Int) : Interval :=
  let below := if m = Nat.pow 2 52 ∧ Binary64.minExponent < e then 1 else 2
  let (unit, den) := Binary64.scale 1 1 (2 - e)
  ⟨(4 * m - below) * unit, 4 * m * unit, (4 * m + 2) * unit, den, m % 2 = 0⟩

def powerOfTen : Int → Nat × Nat
  | .ofNat k => (Nat.pow 10 k, 1)
  | .negSucc k => (1, Nat.pow 10 (k + 1))

def Interval.contains (i : Interval) (d : Decimal) : Bool :=
  let (num, den) := powerOfTen d.power
  let point := d.digits * num * i.den
  if i.closed then i.low * den ≤ point && point ≤ i.high * den
  else i.low * den < point && point < i.high * den

/-- Twice the distance of the decimal from the number, in units that are the same for all decimals
with the same power. -/
def Interval.distance (i : Interval) (d : Decimal) : Nat :=
  let (num, den) := powerOfTen d.power
  let point := d.digits * num * i.den
  let value := i.value * den
  (point - value) + (value - point)

/-- The number of digits in front of the decimal point, the count being negative or zero for the
zeros that follow the point of a number below a tenth: the number is less than ten to this power,
and at least a tenth of that. -/
def Interval.point (i : Interval) : Int :=
  let guess := ((Nat.log2 i.value : Int) - (Nat.log2 i.den : Int)) * 30103 / 100000 + 1
  let below (p : Int) : Bool :=
    let (num, den) := powerOfTen p
    i.value * den < num * i.den
  if below (guess - 1) then guess - 1 else if below guess then guess else guess + 1

/-- The decimal with the given power next below the number, or at it. -/
def Interval.floorAt (i : Interval) (power : Int) : Decimal :=
  let (num, den) := powerOfTen power
  ⟨i.value * den / (num * i.den), power⟩

/-- The nearest decimal of the interval among those with the given power, a tie going to the even
one. -/
def Interval.nearestAt (i : Interval) (power : Int) : Option Decimal :=
  let lower := i.floorAt power
  let upper : Decimal := ⟨lower.digits + 1, power⟩
  match i.contains lower, i.contains upper with
  | false, false => none
  | true, false => some lower
  | false, true => some upper
  | true, true =>
    let l := i.distance lower
    let u := i.distance upper
    if l < u ∨ (l = u ∧ lower.digits % 2 = 0) then some lower else some upper

/-- The same decimal without zeros at the end of its digits, at most `fuel` of them being
removed. -/
def dropZeros : Nat → Decimal → Decimal
  | 0, d => d
  | fuel + 1, d =>
    if d.digits ≠ 0 ∧ d.digits % 10 = 0 then dropZeros fuel ⟨d.digits / 10, d.power + 1⟩ else d

/-- The shortest decimal that reads back as the positive number `m · 2 ^ e`. -/
def shortest (m : Nat) (e : Int) : Decimal :=
  let i := Interval.around m e
  let p := i.point
  let found := (List.range 17).findSome? fun (n : Nat) => i.nearestAt (p - (n + 1 : Nat))
  dropZeros 17 (found.getD (i.floorAt (p - 17)))

end Decimal

def digitsOf (n : Nat) : List Char :=
  Nat.toDigits 10 n

/-- How the digits of a decimal are laid out. Sixteen digits are written in front of the point
before the exponent form is used, and three zeros behind it. A point is always written outside the
exponent form, and the exponent has a sign and at least two digits. -/
def Decimal.layout (d : Decimal) : List Char :=
  let ds := digitsOf d.digits
  let point : Int := ds.length + d.power
  if -4 < point ∧ point ≤ 16 then
    match point with
    | .ofNat p =>
      if p = 0 then '0' :: '.' :: ds
      else if ds.length ≤ p then ds ++ List.replicate (p - ds.length) '0' ++ ['.', '0']
      else ds.take p ++ '.' :: ds.drop p
    | .negSucc z => '0' :: '.' :: List.replicate (z + 1) '0' ++ ds
  else
    let exponent := point - 1
    let magnitude := digitsOf exponent.natAbs
    let magnitude := if magnitude.length < 2 then '0' :: magnitude else magnitude
    let fraction := if ds.length = 1 then [] else '.' :: ds.drop 1
    ds.take 1 ++ fraction ++ 'e' :: (if exponent < 0 then '-' else '+') :: magnitude

/-- The names of the numbers that have no digits. -/
structure SpecialNames where
  nan : String
  infinity : String

/-- The text of a floating point number: the shortest decimal that reads back, or the name of a
number without digits. -/
def Binary64.text (names : SpecialNames) : Binary64 → String
  | .nan => names.nan
  | .infinite negative => (if negative then "-" else "") ++ names.infinity
  | .finite negative m e =>
    let digits := if m = 0 then ['0', '.', '0'] else (Decimal.shortest m e).layout
    String.ofList (if negative then '-' :: digits else digits)

end SchemaForms
