import HybridStep.Proofs.Meaning.Value
import HybridStep.Smt.Combinator

/-! # Values of terms

A valuation gives every name a value. It gives every term a value: operators act as the functions
that their symbols name, and an application to operands that no checked constructor lets through is
false. A term *denotes* a value if it has it and carries its sort. The checked constructors keep the
values: each builds a term that denotes what its operator gives on what the operands denote,
constants that are folded included. -/

namespace HybridStep

variable {K : Type}

/-- The values of the names. -/
abbrev Valuation (K : Type) := String → Val K

section

variable [Field K] [LinearOrder K]

/-- A binary operator on integers. -/
def Operator.onInts (A : Arith K) : Operator → Int → Int → Val K
  | .add, a, b => .int (a + b)
  | .sub, a, b => .int (a - b)
  | .mul, a, b => .int (a * b)
  | .intDiv, a, b => .int (A.intDiv a b)
  | .mod, a, b => .int (A.intMod a b)
  | .pow, a, b => .int (A.intPow a b)
  | .lt, a, b => .bool (decide (a < b))
  | .le, a, b => .bool (decide (a ≤ b))
  | .gt, a, b => .bool (decide (b < a))
  | .ge, a, b => .bool (decide (b ≤ a))
  | _, _, _ => .bool false

/-- A binary operator on reals. -/
def Operator.onReals (A : Arith K) : Operator → K → K → Val K
  | .add, x, y => .real (x + y)
  | .sub, x, y => .real (x - y)
  | .mul, x, y => .real (x * y)
  | .div, x, y => .real (A.realDiv x y)
  | .pow, x, y => .real (A.realPow x y)
  | .lt, x, y => .bool (decide (x < y))
  | .le, x, y => .bool (decide (x ≤ y))
  | .gt, x, y => .bool (decide (y < x))
  | .ge, x, y => .bool (decide (y ≤ x))
  | _, _, _ => .bool false

/-- An operator on one value. -/
def Operator.onOne : Operator → Val K → Val K
  | .not, .bool b => .bool !b
  | .neg, .int n => .int (-n)
  | .neg, .real x => .real (-x)
  | .toReal, .int n => .real n
  | _, _ => .bool false

/-- An operator on two values. -/
def Operator.onTwo (A : Arith K) (op : Operator) (v w : Val K) : Val K :=
  match op with
  | .eq => .bool (decide (v = w))
  | .distinct => .bool (!decide (v = w))
  | op =>
    match v, w with
    | .int a, .int b => op.onInts A a b
    | .real x, .real y => op.onReals A x y
    | .bool a, .bool b => .bool (if op = .xor then a ^^ b else false)
    | _, _ => .bool false

/-- An operator on the values of its operands. -/
def Operator.apply (A : Arith K) (op : Operator) (vs : List (Val K)) : Val K :=
  match op with
  | .and => .bool (vs.all fun v => decide (v = .bool true))
  | .or => .bool (vs.any fun v => decide (v = .bool true))
  | .ite =>
    match vs with
    | [c, v, w] => if c = .bool true then v else w
    | _ => .bool false
  | op =>
    match vs with
    | [v] => op.onOne v
    | [v, w] => op.onTwo A v w
    | _ => .bool false

/-- The value of a constant. -/
def Constant.val : Constant → Val K
  | .int n => .int n.val
  | .real q => .real q
  | .bool b => .bool b
  | .tag e i => (Val.tag? e i).getD (.bool false)

namespace Term

variable (A : Arith K) (σ : Valuation K)

mutual

/-- The value of a term. -/
def val : Term → Val K
  | const c => c.val
  | var v => σ v.name
  | app op args _ => op.apply A (vals args)

/-- The values of the terms of a list. -/
def vals : List Term → List (Val K)
  | [] => []
  | t :: ts => t.val :: vals ts

end

/-- The term has a value, and the sort of the value. -/
def Denotes (t : Term) (v : Val K) : Prop := t.val A σ = v ∧ v.sort = t.sort

/-- The term is true. -/
def Holds (t : Term) : Prop := t.val A σ = .bool true

theorem vals_eq_map (ts : List Term) : vals A σ ts = ts.map (val A σ) := by
  induction ts with
  | nil => rfl
  | cons t ts ih => rw [vals, ih, List.map_cons]

end Term

end

/-! ### Folded constants -/

section

variable [Field K] {A : Arith K}

theorem Word.smallPow_eq {a : Int} (ha : a.natAbs ≤ 1) (n : Nat) : smallPow a n = a ^ n := by
  unfold smallPow
  split_ifs with h0 h2
  · rw [h0, pow_zero]
  · obtain ⟨k, hk⟩ : 2 ∣ n := Nat.dvd_of_mod_eq_zero h2
    have hsq : a * a = 1 ∨ a = 0 := by
      have : a = -1 ∨ a = 0 ∨ a = 1 := by omega
      rcases this with rfl | rfl | rfl <;> simp
    rcases hsq with hsq | rfl
    · rw [hk, pow_mul, pow_two, hsq, one_pow]
    · rw [zero_pow h0, mul_zero]
  · obtain ⟨k, rfl⟩ : ∃ k, n = 2 * k + 1 := ⟨n / 2, by omega⟩
    have : a = -1 ∨ a = 0 ∨ a = 1 := by omega
    rcases this with rfl | rfl | rfl
    · rw [pow_succ, pow_mul]; simp
    · rw [zero_pow h0]
    · rw [one_pow]

theorem Word.pow?_eq {a b c : Word} (h : a.pow? b = some c) : A.intPow a.val b.val = c.val := by
  unfold Word.pow? at h
  split_ifs at h with h1 h2 h3
  all_goals
    have hb : b.val = (b.val.toNat : Int) := by omega
    rw [hb, A.intPow_eq]
  · rw [← smallPow_eq h2]
    exact Word.ofInt?_eq_some_iff.1 h
  · exact Word.ofInt?_eq_some_iff.1 h

theorem Word.div?_eq {a b c : Word} (h : a.div? b = some c) : A.intDiv a.val b.val = c.val := by
  unfold Word.div? at h
  split_ifs at h with h0
  rw [A.intDiv_eq _ _ h0]
  exact Word.ofInt?_eq_some_iff.1 h

theorem Word.mod?_eq {a b c : Word} (h : a.mod? b = some c) : A.intMod a.val b.val = c.val := by
  unfold Word.mod? at h
  split_ifs at h with h0
  obtain ⟨d, -, hd⟩ := Option.bind_eq_some_iff.1 h
  rw [A.intMod_eq _ _ h0]
  exact Word.ofInt?_eq_some_iff.1 hd

theorem Term.foldInt_eq {op : Operator} {a b c : Word} (h : foldInt op a b = some c) :
    op.onInts A a.val b.val = .int c.val := by
  cases op <;> simp only [foldInt, reduceCtorEq] at h <;> simp only [Operator.onInts, Val.int.injEq]
  · exact Word.ofInt?_eq_some_iff.1 h
  · exact Word.ofInt?_eq_some_iff.1 h
  · exact Word.ofInt?_eq_some_iff.1 h
  · exact Word.div?_eq h
  · exact Word.mod?_eq h
  · exact Word.pow?_eq h

theorem Term.foldReal_eq [LinearOrder K] [IsStrictOrderedRing K] {op : Operator} {a b c : Rat}
    (h : foldReal op a b = some c) : op.onReals A a b = .real c := by
  cases op <;> simp only [foldReal, reduceCtorEq, Option.some.injEq] at h <;>
    simp only [Operator.onReals, Val.real.injEq]
  · rw [← h, Rat.cast_add]
  · rw [← h, Rat.cast_sub]
  · rw [← h, Rat.cast_mul]
  · split_ifs at h with h0
    rw [A.realDiv_eq _ _ (by exact_mod_cast h0), ← Option.some.inj h, Rat.cast_div]

end

end HybridStep
