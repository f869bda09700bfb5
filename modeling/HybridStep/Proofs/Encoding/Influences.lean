import HybridStep.Proofs.Encoding.Updates

/-! # Meaning of encoded influences

The equation of an influence holds exactly if the post-step variable of its target has the value of
its source, as a value of the sort of the target. -/

namespace HybridStep

variable {m : Model} {i : InfluenceId} {target source equation : Term}

/-- An influence is encoded like an assignment. -/
theorem equate_of_influenceEquation (h : influenceEquation m i target source = .ok equation)
    (c : Context) (key : VarKey) : c.equate target key (.term source) = .ok equation := by
  obtain ⟨value, hvalue, h⟩ := Attempt.bind_ok.1 h
  refine Attempt.bind_ok.2 ⟨value, ?_, h⟩
  simp only [influenceValue] at hvalue
  simp only [Context.bind]
  generalize target.sort = s, source.sort = s' at hvalue ⊢
  cases s <;> cases s' <;> first | exact hvalue | cases hvalue

variable {K : Type} [Field K] [LinearOrder K] {A : Arith K} {σ : Valuation K} {v : Val K}

theorem influenceEquation_means (h : influenceEquation m i target source = .ok equation)
    (hv : source.Denotes A σ v) :
    ∃ w, v.as? target.sort = some w ∧ (equation.Holds A σ ↔ target.val A σ = w) :=
  Context.equate_means (d := .val v) (equate_of_influenceEquation h default (.local "")) hv

end HybridStep
