set_option autoImplicit false

/-! # Binary floating-point numbers

A `Binary64` is a double-precision number given by its bits. `ofDecimal` rounds a decimal numeral to
the nearest one, ties to even. `shortest` gives the fewest decimal digits that read back as the same
number, and of those the nearest; both work in exact integer arithmetic. `render` writes the
shortest digits: positionally for exponents from -4 to 15, always with a point, and with a signed
exponent of at least two digits elsewhere. -/

namespace ProjectReview

/-- A double-precision number by its bits. -/
structure Binary64 where
  bits : UInt64
deriving DecidableEq, Repr, Inhabited

/-- What the bits of a double-precision number stand for: a magnitude `mantissa * 2 ^ exponent`, an
infinity, or not a number. -/
inductive Binary64.Kind where
  | finite (mantissa : Nat) (exponent : Int)
  | infinite
  | nan
deriving DecidableEq, Repr

/-- The decimal number `0.d₁d₂… * 10 ^ point`, given by its digits. -/
structure DecimalDigits where
  digits : List Nat
  point : Int
deriving DecidableEq, Repr

namespace Binary64

/-- A power of two. -/
def twoTo (n : Nat) : Nat := Nat.pow 2 n

/-- A power of ten. -/
def tenTo (n : Nat) : Nat := Nat.pow 10 n

/-- The number is negative, or a zero or not-a-number with the sign bit set. -/
def isNegative (x : Binary64) : Bool :=
  decide (twoTo 63 ≤ x.bits.toNat)

/-- Its magnitude. -/
def kind (x : Binary64) : Kind :=
  let exponent : Nat := x.bits.toNat / twoTo 52 % twoTo 11
  let fraction : Nat := x.bits.toNat % twoTo 52
  if exponent = 2047 then (if fraction = 0 then .infinite else .nan)
  else if exponent = 0 then .finite fraction (-1074)
  else .finite (twoTo 52 + fraction) ((exponent : Int) - 1075)

/-- The number with a sign and the other bits. -/
def ofBits (negative : Bool) (magnitude : Nat) : Binary64 :=
  ⟨(magnitude + (if negative then twoTo 63 else 0)).toUInt64⟩

/-- Infinity with a sign. -/
def infinity (negative : Bool) : Binary64 :=
  ofBits negative (2047 * twoTo 52)

/-- Not a number. -/
def notANumber : Binary64 :=
  ofBits false (2047 * twoTo 52 + twoTo 51)

/-- Zero with a sign. -/
def zero (negative : Bool) : Binary64 :=
  ofBits negative 0

/-- The quotient rounded to the nearest integer, ties to even. -/
def roundDiv (num den : Nat) : Nat :=
  let q := num / den
  let r := num % den
  if 2 * r < den then q else if den < 2 * r then q + 1 else if q % 2 = 0 then q else q + 1

/-- The nearest number to `num / den`, ties to even. -/
def ofRatio (negative : Bool) (num den : Nat) : Binary64 :=
  if num = 0 ∨ den = 0 then zero negative
  else
    -- The quotient lies between 2 ^ (gap - 1) and 2 ^ (gap + 1).
    let gap : Int := (Nat.log2 num : Int) - Nat.log2 den
    let low : Int := max (gap - 53) (-1074)
    let scaled (e : Int) : Nat × Nat :=
      if 0 ≤ e then (num, den * twoTo e.toNat) else (num * twoTo (-e).toNat, den)
    let (n, d) := scaled low
    let exponent := if n / d < twoTo 53 then low else low + 1
    let (n, d) := scaled exponent
    let mantissa := roundDiv n d
    let (mantissa, exponent) :=
      if mantissa = twoTo 53 then (twoTo 52, exponent + 1) else (mantissa, exponent)
    if exponent > 971 then infinity negative
    else if mantissa < twoTo 52 then ofBits negative mantissa
    else ofBits negative ((exponent + 1075).toNat * twoTo 52 + (mantissa - twoTo 52))

/-- The nearest number to `digits * 10 ^ exponent`, ties to even. -/
def ofDecimal (negative : Bool) (digits : Nat) (exponent : Int) : Binary64 :=
  let size : Int := (Nat.toDigits 10 digits).length
  if digits = 0 ∨ size + exponent < -400 then zero negative
  else if size + exponent > 400 then infinity negative
  else if 0 ≤ exponent then ofRatio negative (digits * tenTo exponent.toNat) 1
  else ofRatio negative digits (tenTo (-exponent).toNat)

/-- The magnitude as a fraction: four times the numerator's units keep half-way points whole. -/
def ratio (mantissa : Nat) (exponent : Int) : Nat × Nat :=
  if 0 ≤ exponent then (4 * mantissa * twoTo exponent.toNat, 4)
  else (4 * mantissa, 4 * twoTo (-exponent).toNat)

/-- The decimal digits of a number, the highest first. -/
def digitsOf (n : Nat) : List Nat :=
  (Nat.toDigits 10 n).map fun c => c.toNat - 48

/-- The nearest decimal with `count` digits that reads back as `m * 2 ^ exponent`, if there is one,
for a magnitude that is at least `10 ^ (point - 1)` and less than `10 ^ point`. -/
def withDigits? (m : Nat) (exponent point : Int) (count : Nat) : Option Nat :=
  let (num, den) := ratio m exponent
  let unit := num / m
  let below := num - (if m = twoTo 52 ∧ exponent > -1074 then unit / 4 else unit / 2)
  let above := num + unit / 2
  let grid : Int := point - count
  let (gridNum, gridDen) := if 0 ≤ grid then (tenTo grid.toNat, 1) else (1, tenTo (-grid).toNat)
  -- Multiplying both sides by `den * gridDen` compares fractions as whole numbers.
  let step := gridNum * den
  let lower := num * gridDen / step
  let fits (k : Nat) : Bool :=
    if m % 2 = 0 then decide (below * gridDen ≤ k * step) && decide (k * step ≤ above * gridDen)
    else decide (below * gridDen < k * step) && decide (k * step < above * gridDen)
  let excess := num * gridDen - lower * step
  let lack := (lower + 1) * step - num * gridDen
  match fits lower && decide (lower ≠ 0), fits (lower + 1) with
  | true, true =>
    some (if excess < lack then lower else if lack < excess then lower + 1
      else if lower % 2 = 0 then lower else lower + 1)
  | true, false => some lower
  | false, true => some (lower + 1)
  | false, false => none

/-- The exponent `p` with `10 ^ (p - 1) ≤ num / den < 10 ^ p`, found from a first guess. -/
def decimalPoint (num den : Nat) : Int :=
  let guess : Int := ((Nat.toDigits 10 num).length : Int) - (Nat.toDigits 10 den).length
  let reaches (p : Int) : Bool :=
    if 0 ≤ p then decide (den * tenTo p.toNat ≤ num) else decide (den ≤ num * tenTo (-p).toNat)
  if reaches guess then guess + 1 else guess

/-- The fewest decimal digits that read back as `mantissa * 2 ^ exponent`. -/
def shortest (mantissa : Nat) (exponent : Int) : DecimalDigits :=
  let (num, den) := ratio mantissa exponent
  let point := decimalPoint num den
  let hit := (List.range 17).findSome? fun k =>
    (withDigits? mantissa exponent point (k + 1)).map fun n => (k + 1, n)
  match hit with
  | some (count, n) =>
    let ds := digitsOf n
    -- A digit string longer than asked for has reached the next power of ten.
    ⟨(ds.reverse.dropWhile (· == 0)).reverse, point + ds.length - count⟩
  | none => ⟨[], point⟩

/-- The characters of decimal digits. -/
def digitChars (ds : List Nat) : List Char :=
  ds.map fun d => Char.ofNat (48 + d)

/-- Shortest digits as text. -/
def renderDigits (d : DecimalDigits) : List Char :=
  let size := d.digits.length
  if -3 ≤ d.point ∧ d.point ≤ 16 then
    if d.point ≤ 0 then
      '0' :: '.' :: List.replicate (-d.point).toNat '0' ++ digitChars d.digits
    else if size ≤ d.point.toNat then
      digitChars d.digits ++ List.replicate (d.point.toNat - size) '0' ++ ['.', '0']
    else
      digitChars (d.digits.take d.point.toNat) ++ '.' :: digitChars (d.digits.drop d.point.toNat)
  else
    let exponent := d.point - 1
    let power := Nat.toDigits 10 exponent.natAbs
    let fraction := if size ≤ 1 then [] else '.' :: digitChars (d.digits.drop 1)
    digitChars (d.digits.take 1) ++ fraction ++ 'e' :: (if exponent < 0 then '-' else '+') ::
      (if power.length < 2 then '0' :: power else power)

/-- The number as text. -/
def render (x : Binary64) : String :=
  let sign := if x.isNegative then ['-'] else []
  match x.kind with
  | .nan => "nan"
  | .infinite => String.ofList (sign ++ ['i', 'n', 'f'])
  | .finite 0 _ => String.ofList (sign ++ ['0', '.', '0'])
  | .finite mantissa exponent => String.ofList (sign ++ renderDigits (shortest mantissa exponent))

/-- The whole part of a finite number, toward zero. -/
def truncate? (x : Binary64) : Option Int :=
  match x.kind with
  | .finite mantissa exponent =>
    let size := if 0 ≤ exponent then mantissa * twoTo exponent.toNat
      else mantissa / twoTo (-exponent).toNat
    some (if x.isNegative then -(size : Int) else size)
  | _ => none

end Binary64

end ProjectReview
