/-! # 64-bit integers

Integer constants are signed 64-bit integers. Arithmetic on them is done in the integers and kept
only if the result is again such an integer, so no result ever wraps. -/

namespace HybridStep

/-- An integer between `-2 ^ 63` and `2 ^ 63 - 1`. -/
structure Word where
  val : Int
  lower : -9223372036854775808 ≤ val := by decide
  upper : val < 9223372036854775808 := by decide
  deriving DecidableEq

namespace Word

instance : Inhabited Word := ⟨⟨0, by decide, by decide⟩⟩

/-- The 64-bit integer with value `n`, if there is one. -/
def ofInt? (n : Int) : Option Word :=
  if h : -9223372036854775808 ≤ n ∧ n < 9223372036854775808 then some ⟨n, h.1, h.2⟩ else none

/-- Decimal digits, after a minus sign if negative. -/
def text (a : Word) : String := toString a.val

theorem ext {a b : Word} (h : a.val = b.val) : a = b := by
  cases a; cases b; simp_all

theorem ofInt?_eq_some_iff {n : Int} {a : Word} : ofInt? n = some a ↔ n = a.val := by
  unfold ofInt?
  constructor
  · intro h
    split at h
    · simpa using (congrArg Word.val (Option.some.inj h))
    · simp at h
  · rintro rfl
    simp [a.lower, a.upper]

/-! ### Arithmetic that never wraps -/

/-- The sum, if it is in range. -/
def add? (a b : Word) : Option Word := ofInt? (a.val + b.val)

/-- The difference, if it is in range. -/
def sub? (a b : Word) : Option Word := ofInt? (a.val - b.val)

/-- The product, if it is in range. -/
def mul? (a b : Word) : Option Word := ofInt? (a.val * b.val)

/-- The negative, if it is in range. -/
def neg? (a : Word) : Option Word := ofInt? (-a.val)

/-- The Euclidean quotient, if the divisor is not zero and the quotient is in range. -/
def div? (a b : Word) : Option Word := if b.val = 0 then none else ofInt? (a.val / b.val)

/-- The Euclidean remainder, if the divisor is not zero and the quotient is in range. -/
def mod? (a b : Word) : Option Word :=
  if b.val = 0 then none else (div? a b).bind fun _ => ofInt? (a.val % b.val)

/-- The power of `-1`, `0` or `1`, which only depends on whether the exponent is zero, even or
odd. -/
def smallPow (a : Int) (n : Nat) : Int :=
  if n = 0 then 1 else if n % 2 = 0 then a * a else a

/-- The power `a ^ b`, if the exponent is from `0` to `2 ^ 32 - 1` and the power is in range. -/
def pow? (a b : Word) : Option Word :=
  if b.val < 0 ∨ 4294967296 ≤ b.val then none
  else if a.val.natAbs ≤ 1 then ofInt? (smallPow a.val b.val.toNat)
  else if b.val < 64 then ofInt? (Int.pow a.val b.val.toNat)
  else none

end Word

end HybridStep
