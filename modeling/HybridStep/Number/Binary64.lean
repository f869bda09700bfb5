/-! # Binary floating-point numbers

A finite binary64 number is a sign, a significand below `2 ^ 53` and an exponent of two. A result is
rounded to the nearest such number, a tie going to the even significand. A decimal is read by
rounded operations; a number is written with the fewest decimal digits whose nearest number it is.
-/

namespace HybridStep

/-- The number `significand * 2 ^ exponent`, with its sign. -/
structure Binary64 where
  negative : Bool
  significand : Nat
  exponent : Int
  deriving DecidableEq, Inhabited

namespace Binary64

/-- A zero. -/
def zero (negative : Bool) : Binary64 := ⟨negative, 0, 0⟩

/-- The least significand of 53 bits, `2 ^ 52`. -/
def leading : Nat := 4503599627370496

/-- The least exponent, that of the numbers next to zero. -/
def minExponent : Int := -1074

/-- The greatest exponent of a finite number. -/
def maxExponent : Int := 971

/-- The numerator and denominator of `n * base ^ e`. -/
def scaled (base n : Nat) (e : Int) : Nat × Nat :=
  (n * Nat.pow base e.toNat, Nat.pow base (-e).toNat)

/-- The quotient rounded to the nearest integer, a tie going to the even one. -/
def roundHalfEven (num den : Nat) : Nat :=
  let q := num / den
  let twice := 2 * (num % den)
  if twice < den then q
  else if den < twice then q + 1
  else if q % 2 = 0 then q else q + 1

/-- The greatest `k` with `2 ^ k ≤ num / den`, for a positive quotient. -/
def floorLog2 (num den : Nat) : Int :=
  let k : Int := (Nat.log2 num : Int) - Nat.log2 den
  let (a, b) := scaled 2 den k
  if a ≤ num * b then k else k - 1

/-- The number nearest to `num / den`, if it is finite. -/
def nearest? (negative : Bool) (num den : Nat) : Option Binary64 :=
  if num = 0 then some (zero negative)
  else
    let e := max (floorLog2 num den - 52) minExponent
    let (a, b) := scaled 2 den e
    let m := roundHalfEven (num * b) a
    let (m, e) := if m = 2 * leading then (leading, e + 1) else (m, e)
    if maxExponent < e then none else some ⟨negative, m, e⟩

/-- The numerator and denominator of the magnitude. -/
def magnitude (x : Binary64) : Nat × Nat := scaled 2 x.significand x.exponent

/-- The number nearest to `10 ^ k`, if it is finite. -/
def tenPow? (k : Nat) : Option Binary64 := nearest? false (Nat.pow 10 k) 1

/-- The product, rounded, if it is finite. -/
def mul? (x y : Binary64) : Option Binary64 :=
  let (a, b) := x.magnitude
  let (c, d) := y.magnitude
  nearest? (x.negative != y.negative) (a * c) (b * d)

/-- The quotient by a number other than zero, rounded, if it is finite. -/
def div? (x y : Binary64) : Option Binary64 :=
  let (a, b) := x.magnitude
  let (c, d) := y.magnitude
  nearest? (x.negative != y.negative) (a * d) (b * c)

/-! ### Decimals -/

/-- The greatest power of ten that is finite. -/
def maxTenPow : Nat := 308

/-- Divides by `10 ^ k`, by one power of ten after the other where one is not enough. Each quotient
is rounded. -/
def divTenPow? (x : Binary64) (k : Nat) : Option Binary64 :=
  if maxTenPow < k then
    if x.significand = 0 then some x
    else do divTenPow? (← x.div? (← tenPow? maxTenPow)) (k - maxTenPow)
  else do x.div? (← tenPow? k)
termination_by k
decreasing_by simp only [maxTenPow] at *; omega

/-- Multiplies by `10 ^ k` and rounds, if the product is finite. -/
def mulTenPow? (x : Binary64) (k : Nat) : Option Binary64 :=
  if x.significand = 0 then some x
  else if maxTenPow < k then none
  else do x.mul? (← tenPow? k)

/-- The decimal `digits * 10 ^ e`, if it is finite. The digits are rounded first, then what they are
multiplied with or divided by, then the result, so it need not be the number nearest to the decimal.
-/
def ofDecimal? (negative : Bool) (digits : Nat) (e : Int) : Option Binary64 := do
  let x ← nearest? negative digits 1
  if e < 0 then x.divTenPow? (-e).toNat else x.mulTenPow? e.toNat

/-! ### Shortest digits -/

/-- Decimal digits `digits` at the place `10 ^ exponent`. -/
structure Digits where
  digits : Nat
  exponent : Int
  deriving DecidableEq

/-- Four times the significands of the lower and upper end of the numbers that round to a number. -/
def bounds (x : Binary64) : Nat × Nat :=
  let m := x.significand
  (if m = leading ∧ minExponent < x.exponent then 4 * m - 1 else 4 * m - 2, 4 * m + 2)

/-- Whether `d * 10 ^ k` rounds to `x`. The ends round to an even significand. -/
def roundsTo (x : Binary64) (d : Nat) (k : Int) : Bool :=
  let (low, high) := x.bounds
  let (dn, dd) := scaled 10 d k
  let (ln, ld) := scaled 2 low (x.exponent - 2)
  let (hn, hd) := scaled 2 high (x.exponent - 2)
  if x.significand % 2 = 0 then ln * dd ≤ dn * ld && dn * hd ≤ hn * dd
  else ln * dd < dn * ld && dn * hd < hn * dd

/-- The greatest `k` with `10 ^ k ≤ num / den`, for a positive quotient. -/
def floorLog10 (num den : Nat) : Int :=
  if den ≤ num then (toString (num / den)).length - 1
  else
    let j : Nat := (toString (den / num)).length - 1
    if den ≤ num * Nat.pow 10 j then -j else -(j + 1)

/-- The nearest of the two neighbours of `x` on the grid of `10 ^ k` that round to `x`. -/
def onGrid? (x : Binary64) (k : Int) : Option Nat :=
  let (num, den) := scaled 2 x.significand x.exponent
  let (gn, gd) := scaled 10 1 k
  let down := num * gd / (den * gn)
  let rest := num * gd - down * (den * gn)
  match roundsTo x down k, roundsTo x (down + 1) k with
  | true, true => some (if 2 * rest < den * gn then down
      else if den * gn < 2 * rest then down + 1
      else if down % 2 = 0 then down else down + 1)
  | true, false => some down
  | false, true => some (down + 1)
  | false, false => none

/-- The first hit among grids of `n`, `n + 1`, … digits, with the leading digit at the place `s`. -/
def search (x : Binary64) (s : Int) : Nat → Nat → Digits
  | 0, n => ⟨0, s - n⟩
  | fuel + 1, n =>
    let k := s - n + 1
    match x.onGrid? k with
    | some d => ⟨d, k⟩
    | none => search x s fuel (n + 1)

/-- Moves the zeros at the end of the digits into the exponent. -/
def dropZeros (fuel : Nat) (d : Digits) : Digits :=
  match fuel with
  | 0 => d
  | fuel + 1 =>
    if d.digits ≠ 0 ∧ d.digits % 10 = 0 then dropZeros fuel ⟨d.digits / 10, d.exponent + 1⟩ else d

/-- The fewest digits that read back as the magnitude of a number other than zero, the nearest ones
to it. Seventeen always do. -/
def shortest (x : Binary64) : Digits :=
  let (num, den) := scaled 2 x.significand x.exponent
  dropZeros 20 (search x (floorLog10 num den) 18 1)

end Binary64

end HybridStep
