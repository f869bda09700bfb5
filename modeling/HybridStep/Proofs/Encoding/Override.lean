import HybridStep.Proofs.Encoding.Names
import HybridStep.Proofs.Meaning.Term

/-! # Overriding valuations

A valuation can be given new values for some handles of a table. As different handles have different
names, each of these handles has its new value and no other handle changes. -/

namespace HybridStep.SymbolTable

variable {K : Type} {T : SymbolTable} {D D' : SymbolKey → Version → Prop}
variable {σ σ' σ'' : Valuation K} {key : SymbolKey} {v : Version} {x : Variable}

/-- Every name of a table has a value of its sort. -/
def Sorted (T : SymbolTable) (σ : Valuation K) : Prop :=
  ∀ ⦃key v x⦄, T.get? key v = some (.var x) → (σ x.name).sort = x.sort

/-- A valuation that differs from another one at most in the names of some handles. -/
def Changes (T : SymbolTable) (D : SymbolKey → Version → Prop) (σ σ' : Valuation K) : Prop :=
  ∀ ⦃name⦄, (∀ key v x, T.get? key v = some (.var x) → D key v → x.name ≠ name) →
    σ' name = σ name

theorem Changes.refl (σ : Valuation K) : T.Changes D σ σ := fun _ _ => rfl

theorem Changes.mono (h : T.Changes D σ σ') (hD : ∀ key v, D key v → D' key v) :
    T.Changes D' σ σ' := fun _ hn => h fun key v x hx hd => hn key v x hx (hD key v hd)

theorem Changes.trans (h : T.Changes D σ σ') (h' : T.Changes D σ' σ'') : T.Changes D σ σ'' :=
  fun _ hn => (h' hn).trans (h hn)

/-- A handle that is not changed keeps its value. -/
theorem Changes.same (h : T.Changes D σ σ') (hn : T.NamesDistinct)
    (hx : T.get? key v = some (.var x)) (hD : ¬ D key v) : σ' x.name = σ x.name := by
  refine h fun key' v' y hy hD' hname => hD ?_
  obtain ⟨rfl, rfl⟩ := hn hy hx hname
  exact hD'

open Classical in
/-- The valuation that gives some handles new values. -/
noncomputable def override (T : SymbolTable) (D : SymbolKey → Version → Prop)
    (value : SymbolKey → Val K) (σ : Valuation K) : Valuation K := fun name =>
  if h : ∃ key, ∃ v x, T.get? key v = some (.var x) ∧ D key v ∧ x.name = name then value h.choose
  else σ name

variable {value : SymbolKey → Val K}

theorem override_of_mem (hn : T.NamesDistinct) (hx : T.get? key v = some (.var x))
    (hD : D key v) : T.override D value σ x.name = value key := by
  have h : ∃ key, ∃ v y, T.get? key v = some (.var y) ∧ D key v ∧ y.name = x.name :=
    ⟨key, v, x, hx, hD, rfl⟩
  obtain ⟨v', y, hy, -, hname⟩ := h.choose_spec
  rw [override, dif_pos h, (hn hy hx hname).1]

theorem changes_override : T.Changes D σ (T.override D value σ) := by
  intro name h
  rw [override, dif_neg]
  rintro ⟨key, v, x, hx, hD, hname⟩
  exact h key v x hx hD hname

theorem override_sorted (hn : T.NamesDistinct)
    (hs : ∀ {key v x}, T.get? key v = some (.var x) → D key v → (value key).sort = x.sort)
    (hx : T.get? key v = some (.var x)) (hsort : (σ x.name).sort = x.sort) :
    (T.override D value σ x.name).sort = x.sort := by
  by_cases hD : D key v
  · rw [override_of_mem hn hx hD]
    exact hs hx hD
  · rw [changes_override.same hn hx hD]
    exact hsort

/-- A valuation can be changed so that one handle has another value of its sort. -/
theorem exists_override_one (hn : T.NamesDistinct) (hx : T.get? key v = some (.var x)) {w : Val K}
    (hw : w.sort = x.sort) (σ : Valuation K) :
    ∃ σ', σ' x.name = w ∧ T.Changes (fun key' v' => key' = key ∧ v' = v) σ σ' ∧
      (T.Sorted σ → T.Sorted σ') := by
  refine ⟨T.override (fun key' v' => key' = key ∧ v' = v) (fun _ => w) σ,
    override_of_mem hn hx ⟨rfl, rfl⟩, changes_override, fun hσ key' v' y hy => ?_⟩
  refine override_sorted hn ?_ hy (hσ hy)
  rintro _ _ z hz ⟨rfl, rfl⟩
  obtain rfl := Term.var.inj (Option.some.inj (hx.symm.trans hz))
  exact hw

end HybridStep.SymbolTable
