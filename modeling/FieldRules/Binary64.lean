import FieldRules.Numeral

/-!
Floating-point numbers of 64 bits (IEEE 754 binary64), kept as their bits, so that every NaN survives
being stored. A finite number is a whole multiple of 2^-1074; with that unit, order, rounding and
arithmetic are statements about whole numbers. The shortest decimal that reads back as a float is looked
for on a fine grid of step 10^-343, on which every decimal of at most 17 digits that is close to a finite
float lies.
-/

namespace FieldRules

structure Binary64 where
  bits : UInt64
  deriving DecidableEq

namespace Binary64

def signBit : Nat := 0x8000000000000000

def hiddenBit : Nat := 0x10000000000000

def isNegative (x : Binary64) : Bool :=
  decide (signBit ≤ x.bits.toNat)

def magnitude (x : Binary64) : Nat :=
  x.bits.toNat % signBit

def infinityMagnitude : Nat := 0x7ff0000000000000

def isFinite (x : Binary64) : Bool :=
  decide (x.magnitude < infinityMagnitude)

def isNaN (x : Binary64) : Bool :=
  decide (infinityMagnitude < x.magnitude)

def isZero (x : Binary64) : Bool :=
  decide (x.magnitude = 0)

def ofMagnitude (negative : Bool) (magnitude : Nat) : Binary64 :=
  ⟨UInt64.ofNat (if negative then signBit + magnitude else magnitude)⟩

def nan (negative : Bool) : Binary64 :=
  ofMagnitude negative (infinityMagnitude + hiddenBit / 2)

def infinity (negative : Bool) : Binary64 :=
  ofMagnitude negative infinityMagnitude

def zero (negative : Bool) : Binary64 :=
  ofMagnitude negative 0

def scale (x : Binary64) : Nat :=
  x.magnitude / hiddenBit - 1

def significand (x : Binary64) : Nat :=
  if x.magnitude < hiddenBit then x.magnitude else hiddenBit + x.magnitude % hiddenBit

def units (x : Binary64) : Nat :=
  x.significand * twoTo x.scale

def place (x : Binary64) : Int :=
  if x.isNegative then -(x.magnitude : Int) else x.magnitude

def compare? (x y : Binary64) : Option Ordering :=
  if x.isNaN || y.isNaN then none else some (compare x.place y.place)

def nearest (numerator denominator : Nat) : Nat :=
  let low := numerator / denominator
  let excess := 2 * (numerator % denominator)
  if excess < denominator then low
  else if denominator < excess then low + 1
  else low + low % 2

/-- The float nearest to a ratio of natural numbers; a tie goes to the even significand, and a
ratio beyond the largest finite float becomes an infinity. The significand is rounded on the grid
of its own scale; added to the scale it gives the bits, also where rounding carries into the next
scale. -/
def ofRatio (negative : Bool) (numerator denominator : Nat) : Binary64 :=
  let scaled := numerator * twoTo 1074
  let scale := (scaled / denominator).log2 - 52
  let rounded := scale * hiddenBit + nearest scaled (denominator * twoTo scale)
  ofMagnitude negative (min rounded infinityMagnitude)

def ofInt (value : Int) : Binary64 :=
  ofRatio (decide (value < 0)) value.natAbs 1

/-- The float nearest to `digits * 10 ^ exponent`. Exponents at which the answer is an infinity or
a zero for certain are decided without forming the power. -/
def ofDecimal (negative : Bool) (digits : Nat) (exponent : Int) : Binary64 :=
  if digits = 0 ∨ exponent < -(digits.log2 + 331 : Nat) then zero negative
  else if 309 ≤ exponent then infinity negative
  else if 0 ≤ exponent then ofRatio negative (digits * tenTo exponent.toNat) 1
  else ofRatio negative digits (tenTo (-exponent).toNat)

def mul (x y : Binary64) : Binary64 :=
  ofRatio (x.isNegative != y.isNegative) (x.units * y.units) (twoTo 2148)

def div (x y : Binary64) : Binary64 :=
  ofRatio (x.isNegative != y.isNegative) x.units y.units

end Binary64

inductive Tie where
  | up
  | toEven
  deriving DecidableEq

structure Decimal where
  digits : Nat
  exponent : Int
  deriving DecidableEq

namespace Binary64

def gapAbove (x : Binary64) : Nat :=
  2 * twoTo x.scale

def gapBelow (x : Binary64) : Nat :=
  if x.significand = hiddenBit ∧ 0 < x.scale then twoTo x.scale else 2 * twoTo x.scale

/-- Whether the grid point `point * 10 ^ -343` rounds to the positive float `x`: it lies between
the middles to both neighbours, or on one of them and the even significand of `x` wins the tie. -/
def roundsFrom (x : Binary64) (point : Nat) : Bool :=
  let low := (4 * x.units - x.gapBelow) * tenTo 343
  let high := (4 * x.units + x.gapAbove) * tenTo 343
  let here := point * twoTo 1076
  if x.significand % 2 = 0 then decide (low ≤ here) && decide (here ≤ high)
  else decide (low < here) && decide (here < high)

def gridFloor (x : Binary64) : Nat :=
  4 * x.units * tenTo 343 / twoTo 1076

def neighbour? (x : Binary64) (tie : Tie) (step : Nat) : Option Nat :=
  let below := x.gridFloor / step
  let above := below + 1
  match x.roundsFrom (below * step), x.roundsFrom (above * step) with
  | false, false => none
  | true, false => some below
  | false, true => some above
  | true, true =>
      let twice := 2 * (4 * x.units * tenTo 343)
      let middle := (below + above) * step * twoTo 1076
      if twice < middle then some below
      else if middle < twice then some above
      else match tie with
        | .up => some above
        | .toEven => some (below + below % 2)

/-- The shortest decimal that rounds to the positive finite float `x`, the nearest one of that
length. Seventeen digits always suffice. -/
def shortest (x : Binary64) (tie : Tie) : Decimal :=
  let size := (Nat.toDigits 10 x.gridFloor).length
  let attempt (count : Nat) : Option Decimal :=
    (x.neighbour? tie (tenTo (size - count))).map fun digits =>
      ⟨digits, ((size - count : Nat) : Int) - 343⟩
  ((List.range' 1 17).findSome? attempt).getD ⟨x.gridFloor, -343⟩

end Binary64

open Text

structure FloatStyle where
  tie : Tie
  positional : Int → Bool
  wholeMark : Bool
  exponentPlus : Bool

namespace FloatStyle

/-- The style of floats in rules, which keeps them apart from integers: without an exponent from
0.0001 up to, and not including, 10^16. -/
def rule : FloatStyle where
  tie := .up
  positional p := decide (-3 ≤ p ∧ p ≤ 16)
  wholeMark := true
  exponentPlus := false

def plain : FloatStyle where
  tie := .up
  positional _ := true
  wholeMark := false
  exponentPlus := false

def json : FloatStyle where
  tie := .toEven
  positional p := decide (-4 ≤ p ∧ p ≤ 16)
  wholeMark := true
  exponentPlus := true

end FloatStyle

def dropLastZeros (digits : List Char) : List Char :=
  (digits.reverse.dropWhile (· == '0')).reverse

def FloatStyle.positionalText (style : FloatStyle) (digits : List Char) (point : Int) : List Char :=
  if point ≤ 0 then '0' :: '.' :: (List.replicate (-point).toNat '0' ++ digits)
  else if digits.length ≤ point.toNat then
    digits ++ List.replicate (point.toNat - digits.length) '0'
      ++ (if style.wholeMark then ['.', '0'] else [])
  else digits.take point.toNat ++ '.' :: digits.drop point.toNat

def FloatStyle.scientificText (style : FloatStyle) (digits : List Char) (point : Int) : List Char :=
  let fraction := digits.drop 1
  let exponent := point - 1
  digits.take 1 ++ (if fraction.isEmpty then [] else '.' :: fraction) ++ 'e' ::
    ((if style.exponentPlus && decide (0 ≤ exponent) then ['+'] else []) ++ intText exponent)

def FloatStyle.decimalText (style : FloatStyle) (value : Decimal) : List Char :=
  let all := Nat.toDigits 10 value.digits
  let point := all.length + value.exponent
  let digits := dropLastZeros all
  if style.positional point then style.positionalText digits point
  else style.scientificText digits point

namespace Binary64

def absText (x : Binary64) (style : FloatStyle) : List Char :=
  if x.isNaN then "NaN".toList
  else if !x.isFinite then "inf".toList
  else if x.isZero then '0' :: (if style.wholeMark then ['.', '0'] else [])
  else style.decimalText (x.shortest style.tie)

def text (x : Binary64) (style : FloatStyle) : List Char :=
  if x.isNegative && !x.isNaN then '-' :: x.absText style else x.absText style

end Binary64

def exponentOfText? : List Char → Option Int
  | [] => some 0
  | mark :: rest => if mark = 'e' ∨ mark = 'E' then intOfText? rest else none

def splitFraction : List Char → List Char × List Char
  | '.' :: rest => (rest.takeWhile Char.isDigit, rest.dropWhile Char.isDigit)
  | text => ([], text)

namespace Binary64

def ofDecimalText? (negative : Bool) (text : List Char) : Option Binary64 :=
  let whole := text.takeWhile Char.isDigit
  let (fraction, rest) := splitFraction (text.dropWhile Char.isDigit)
  if whole.isEmpty && fraction.isEmpty then none
  else (exponentOfText? rest).map fun exponent =>
    ofDecimal negative (Nat.ofDigitChars 10 (whole ++ fraction) 0) (exponent - fraction.length)

/-- The float nearest to the number that the text writes. Infinities and NaN are written as the
words "inf", "infinity" and "nan" in any letter case. -/
def ofText? (text : List Char) : Option Binary64 :=
  let (negative, rest) := splitSign text
  let word := rest.map Char.toLower
  if word = "inf".toList ∨ word = "infinity".toList then some (infinity negative)
  else if word = "nan".toList then some (nan negative)
  else ofDecimalText? negative rest

def finiteOfText? (text : List Char) : Option Binary64 :=
  (ofText? text).filter Binary64.isFinite

end Binary64

end FieldRules
