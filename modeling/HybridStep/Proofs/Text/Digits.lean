import HybridStep.Text.Ascii
import Mathlib.Data.List.Basic
import Mathlib.Tactic.IntervalCases
import Mathlib.Tactic.SplitIfs
import Std.Data.String.ToNat

/-! # Decimal digits

The text of a number consists of digits, without a leading zero, and denotes the number. -/

namespace HybridStep

theorem toList_toString (n : Nat) : (toString n).toList = Nat.toDigits 10 n := by
  rw [Nat.toString_eq_repr, Nat.toList_repr]

theorem toString_ne_nil (n : Nat) : (toString n).toList ≠ [] := by
  rw [toList_toString]
  exact Nat.toDigits_ne_nil

theorem isDigit_of_mem_toString {n : Nat} {c : Char} (h : c ∈ (toString n).toList) :
    Ascii.isDigit c := by
  rw [toList_toString] at h
  have hc := Nat.isDigit_of_mem_toDigits (by decide) (by decide) h
  simp only [Char.isDigit, Bool.and_eq_true, decide_eq_true_eq] at hc
  simp only [Ascii.isDigit, Bool.and_eq_true, decide_eq_true_eq]
  exact hc

theorem toString_head (n : Nat) : ∃ c cs, (toString n).toList = c :: cs ∧ Ascii.isDigit c := by
  cases h : (toString n).toList with
  | nil => exact absurd h (toString_ne_nil n)
  | cons c cs => exact ⟨c, cs, rfl, isDigit_of_mem_toString (h ▸ List.mem_cons_self)⟩

theorem natOfDigits_toString (n : Nat) : Ascii.natOfDigits (toString n).toList = n := by
  rw [toList_toString]
  exact Nat.ofDigitChars_toDigits (by decide) (by decide)

/-- The text of a number that is not zero does not start with a zero. -/
theorem head?_toString_ne {n : Nat} (hn : 0 < n) : (toString n).toList.head? ≠ some '0' := by
  rw [toList_toString]
  induction n using Nat.strongRecOn with
  | ind n ih =>
    rw [Nat.toDigits_eq_if (by decide)]
    split_ifs with hlt
    · interval_cases n <;> decide
    · rw [List.head?_append_of_ne_nil _ Nat.toDigits_ne_nil]
      exact ih (n / 10) (by omega) (by omega)

end HybridStep
