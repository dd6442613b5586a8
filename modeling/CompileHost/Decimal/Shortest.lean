/-!
# Shortest decimals

The decimal with the fewest digits that is nearer to a given binary number than to any other one
of its kind.  Numbers are binary with 64 bits, and all arithmetic here is exact.
-/

namespace CompileHost

/-- A finite binary number with 64 bits. -/
structure Binary64 where
  bits : UInt64
  deriving DecidableEq

namespace Binary64

def isNegative (x : Binary64) : Bool :=
  Nat.pow 2 63 ≤ x.bits.toNat

/-- The eleven bits of the exponent. -/
def exponentField (x : Binary64) : Nat :=
  x.bits.toNat / Nat.pow 2 52 % Nat.pow 2 11

/-- The 52 bits behind the leading one. -/
def fraction (x : Binary64) : Nat :=
  x.bits.toNat % Nat.pow 2 52

/-- The whole number that is scaled by a power of two. -/
def mantissa (x : Binary64) : Nat :=
  if x.exponentField = 0 then x.fraction else x.fraction + Nat.pow 2 52

/-- The size of the number is `mantissa * 2 ^ exponent`. -/
def exponent (x : Binary64) : Int :=
  (max x.exponentField 1 : Nat) - 1075

/-- Below a power of two the numbers lie twice as close as above it. -/
def isLowBoundary (x : Binary64) : Bool :=
  x.fraction = 0 && 1 < x.exponentField

end Binary64

/-- A number `coefficient * 10 ^ scale`. -/
structure Decimal where
  coefficient : Nat
  scale : Int
  deriving DecidableEq

namespace Decimal

/-- A positive fraction. -/
structure Quotient where
  num : Nat
  den : Nat

/-- A natural number times a power of a base, as a fraction. -/
def Quotient.scaled (n base : Nat) (e : Int) : Quotient :=
  if 0 ≤ e then ⟨n * Nat.pow base e.toNat, 1⟩ else ⟨n, Nat.pow base (-e).toNat⟩

def Quotient.le (a b : Quotient) : Bool :=
  a.num * b.den ≤ b.num * a.den

def Quotient.lt (a b : Quotient) : Bool :=
  a.num * b.den < b.num * a.den

/-- The numbers that round to a given one, of which it is said whether the ends are among them. -/
structure Interval where
  low : Quotient
  high : Quotient
  closed : Bool

def Interval.of (x : Binary64) : Interval where
  low := .scaled (4 * x.mantissa - if x.isLowBoundary then 1 else 2) 2 (x.exponent - 2)
  high := .scaled (4 * x.mantissa + 2) 2 (x.exponent - 2)
  closed := x.mantissa % 2 = 0

def Interval.has (i : Interval) (q : Quotient) : Bool :=
  if i.closed then i.low.le q && q.le i.high else i.low.lt q && q.lt i.high

def value (d : Decimal) : Quotient :=
  .scaled d.coefficient 10 d.scale

/-- The number of decimal digits before the point, or less the number of zeros behind it. -/
def magnitude (q : Quotient) : Int :=
  if q.den ≤ q.num then ((Nat.toDigits 10 (q.num / q.den)).length : Int)
  else
    match (List.range 400).find? fun k => q.den ≤ q.num * Nat.pow 10 (k + 1) with
    | some k => -(k : Int)
    | none => -400

/-- The multiples of `10 ^ scale` right below and right above a number. -/
def neighbours (q : Quotient) (scale : Int) : Decimal × Decimal :=
  let unit := Quotient.scaled 1 10 scale
  let below := q.num * unit.den / (q.den * unit.num)
  (⟨below, scale⟩, ⟨below + 1, scale⟩)

/-- The nearer of the two neighbours of a number; halfway between them, the even one. -/
def nearest (q : Quotient) (low high : Decimal) : Decimal :=
  let a := low.value
  let b := high.value
  let twice := 2 * q.num * (a.den * b.den)
  let sum := (a.num * b.den + b.num * a.den) * q.den
  if twice < sum ∨ twice = sum ∧ low.coefficient % 2 = 0 then low else high

/-- The best decimal with a given number of digits, if one lies in the interval. -/
def withDigits (i : Interval) (q : Quotient) (digits : Nat) : Option Decimal :=
  let (low, high) := neighbours q (magnitude q - digits)
  match i.has low.value, i.has high.value with
  | true, true => some (nearest q low high)
  | true, false => some low
  | false, true => some high
  | false, false => none

/-- The shortest decimal for the size of a binary number. -/
def shortest (x : Binary64) : Decimal :=
  if x.mantissa = 0 then ⟨0, 0⟩
  else
    let q := Quotient.scaled x.mantissa 2 x.exponent
    ((List.range 17).findSome? fun n => withDigits (.of x) q (n + 1)).getD ⟨0, 0⟩

/-- Drops the zeros at the end of the coefficient, at most `fuel` of them. -/
def dropZeros : Nat → Decimal → Decimal
  | 0, d => d
  | fuel + 1, d =>
    if d.coefficient ≠ 0 ∧ d.coefficient % 10 = 0 then
      dropZeros fuel ⟨d.coefficient / 10, d.scale + 1⟩
    else d

/-- How decimals are written: with a point as long as the point stands within the given bounds,
counted from the first digit, and with an exponent otherwise. -/
structure Style where
  lowPoint : Int
  highPoint : Int

/-- Digits with a point behind the first `point` of them, and at least one digit on either
side. -/
def pointed (digits : List Char) (point : Int) : List Char :=
  if 0 < point then
    let whole := point.toNat
    let padded := digits ++ List.replicate (whole + 1 - digits.length) '0'
    padded.take whole ++ '.' :: padded.drop whole
  else '0' :: '.' :: List.replicate (-point).toNat '0' ++ digits

/-- A number with its sign, be it plus or minus. -/
def signed (n : Int) : List Char :=
  (if 0 ≤ n then '+' else '-') :: Nat.toDigits 10 n.natAbs

/-- The first digit, the others behind a point if there are any, and the exponent with its
sign. -/
def scientific (digits : List Char) (point : Int) : List Char :=
  let fraction := if digits.length ≤ 1 then [] else '.' :: digits.drop 1
  digits.take 1 ++ fraction ++ 'e' :: signed (point - 1)

def write (style : Style) (d : Decimal) : List Char :=
  let digits := Nat.toDigits 10 d.coefficient
  let point := d.scale + digits.length
  if d.coefficient = 0 then ['0', '.', '0']
  else if style.lowPoint ≤ point ∧ point ≤ style.highPoint then pointed digits point
  else scientific digits point

/-- Numbers from `0.00001` up to below `1e16` are written with a point only. -/
def plainUpTo16 : Style := ⟨-4, 16⟩

end Decimal

/-- A binary number in the shortest decimal form that reads back. -/
def Binary64.text (x : Binary64) : String :=
  let size := (Decimal.dropZeros 20 (Decimal.shortest x)).write Decimal.plainUpTo16
  String.ofList (if x.isNegative then '-' :: size else size)

end CompileHost
