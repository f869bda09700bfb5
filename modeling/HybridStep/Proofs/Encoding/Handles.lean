import HybridStep.Encoding.Modifier
import HybridStep.Proofs.Success
import Mathlib.Tactic.SplitIfs

/-! # The handles of a table

A table only ever gains handles, and a handle is what its key and version say: the variable of the
time step, the prior value of a port for its version zero, and otherwise a variable whose name is
made of the name, the version and the number of the owner. `GrowsBy` says what one part of an
encoding adds; it is kept by every function on tables and passes on along a whole encoding. -/

namespace HybridStep

namespace SymbolTable

/-- What may stand under a key and a version. -/
def Fits (m : Model) (stepName : String) : SymbolKey → Version → Term → Prop
  | .step, _, term => term = .var ⟨stepName, .real⟩
  | .port p, v, term => portTerm m p v = .ok term
  | .local name owner, v, term => ∃ sort, term = .var ⟨symbolName name v owner.text, sort⟩

/-- Every handle is what its key and version say, and the time step has its variable. -/
structure Canonical (m : Model) (t : SymbolTable) : Prop where
  fits {key : SymbolKey} {v : Version} {term : Term} :
    t.get? key v = some term → Fits m t.stepName key v term
  step : t.get? .step .current = some t.step

/-- One table has the handles of another one. -/
structure Extends (t t' : SymbolTable) : Prop where
  stepName : t'.stepName = t.stepName
  kept {key : SymbolKey} {v : Version} {term : Term} :
    t.get? key v = some term → t'.get? key v = some term

/-- One table has the handles of another one, and other handles only of some form. -/
structure GrowsBy (New : SymbolKey → Version → Term → Prop) (t t' : SymbolTable) : Prop
    extends t.Extends t' where
  written : t'.written = t.written
  fresh {key : SymbolKey} {v : Version} {term : Term} :
    t'.get? key v = some term → t.get? key v = some term ∨ New key v term

variable {m : Model} {t t' t'' : SymbolTable} {key key' : SymbolKey} {v v' : Version} {term : Term}
variable {New New' : SymbolKey → Version → Term → Prop}

theorem get?_add : (t.add key v term).get? key' v' =
    if key' = key ∧ v' = v then some term else t.get? key' v' := by
  unfold get? add
  rw [OrderedMap.get?_insert]
  by_cases hk : key' = key
  · subst hk
    by_cases hv : v' = v
    · simp [hv]
    · cases h : t.handles.get? key' <;> simp [hv]
  · simp [hk]

@[simp] theorem get?_markWritten (p : PortId) :
    (t.markWritten p).get? key v = t.get? key v := rfl

@[simp] theorem stepName_markWritten (p : PortId) : (t.markWritten p).stepName = t.stepName := rfl

theorem Extends.rfl : t.Extends t := ⟨Eq.refl _, fun h => h⟩

theorem Extends.trans (h : t.Extends t') (h' : t'.Extends t'') : t.Extends t'' :=
  ⟨h'.stepName.trans h.stepName, fun hg => h'.kept (h.kept hg)⟩

theorem GrowsBy.rfl : GrowsBy New t t := ⟨Extends.rfl, Eq.refl _, fun h => .inl h⟩

theorem GrowsBy.trans (h : GrowsBy New t t') (h' : GrowsBy New t' t'') : GrowsBy New t t'' := by
  refine ⟨h.toExtends.trans h'.toExtends, h'.written.trans h.written, fun hg => ?_⟩
  rcases h'.fresh hg with hg | hn
  · exact h.fresh hg
  · exact .inr hn

theorem GrowsBy.mono (h : GrowsBy New t t') (hn : ∀ key v term, New key v term → New' key v term) :
    GrowsBy New' t t' :=
  ⟨h.toExtends, h.written, fun hg => (h.fresh hg).imp_right (hn _ _ _)⟩

theorem GrowsBy.add (hnone : t.get? key v = none) (hnew : New key v term) :
    GrowsBy New t (t.add key v term) := by
  refine ⟨⟨Eq.refl _, fun {key' v' term'} hg => ?_⟩, Eq.refl _, fun {key' v' term'} hg => ?_⟩
  · rw [get?_add, if_neg]
    · exact hg
    · rintro ⟨rfl, rfl⟩
      rw [hnone] at hg
      cases hg
  · rw [get?_add] at hg
    split_ifs at hg with h
    · obtain ⟨rfl, rfl⟩ := h
      cases hg
      exact .inr hnew
    · exact .inl hg

theorem Canonical.grow (hc : t.Canonical m) (h : GrowsBy New t t')
    (hn : ∀ key v term, New key v term → Fits m t.stepName key v term) : t'.Canonical m := by
  refine ⟨fun hg => ?_, ?_⟩
  · rw [h.stepName]
    exact (h.fresh hg).elim hc.fits (hn _ _ _)
  · rw [show t'.step = t.step by rw [SymbolTable.step, SymbolTable.step, h.stepName]]
    exact h.kept hc.step

theorem canonical_fresh (m : Model) (stepName : String) : (fresh stepName).Canonical m := by
  have hget : ∀ key v, (fresh stepName).get? key v =
      if key = .step ∧ v = .current then some (.var ⟨stepName, .real⟩) else none := by
    intro key v
    rw [fresh, get?_add]
    rfl
  refine ⟨fun {key v term} hg => ?_, by rw [hget]; rfl⟩
  rw [hget] at hg
  split_ifs at hg with h
  obtain ⟨rfl, rfl⟩ := h
  cases hg
  rfl

theorem Canonical.markWritten (hc : t.Canonical m) (p : PortId) :
    (t.markWritten p).Canonical m := ⟨fun hg => hc.fits hg, hc.step⟩

/-! ### What ports stand for -/

theorem constant?_eq_some {x : Value} {s : TermSort} (h : x.constant? s = some term) :
    ∃ k : Constant, term = .const k ∧ k.sort = s := by
  unfold Value.constant? at h
  split at h
  · cases h; exact ⟨_, rfl, rfl⟩
  · cases h; exact ⟨_, rfl, rfl⟩
  · cases h; exact ⟨_, rfl, rfl⟩
  · cases h; exact ⟨_, rfl, rfl⟩
  · obtain ⟨i, -, rfl⟩ := Option.map_eq_some_iff.1 h
    exact ⟨_, rfl, rfl⟩
  · cases h

theorem priorTerm_ok {p : PortId} (h : priorTerm m p = .ok term) :
    (m.port p).value.constant? (m.sortOfPort p) = some term := by
  unfold priorTerm at h
  simp only at h
  split at h
  · next u hu =>
    cases h
    exact hu
  · cases h

theorem portTerm_prior {p : PortId} (h : portTerm m p .prior = .ok term) :
    ∃ k : Constant, term = .const k ∧ k.sort = m.sortOfPort p := by
  rw [portTerm, if_pos rfl] at h
  exact constant?_eq_some (priorTerm_ok h)

theorem portTerm_of_ne {p : PortId} (hv : v ≠ .prior) : portTerm m p v =
    .ok (.var ⟨symbolName (m.port p).name v p.text, m.sortOfPort p⟩) := if_neg hv

theorem sort_of_portTerm {p : PortId} (h : portTerm m p v = .ok term) :
    term.sort = m.sortOfPort p := by
  by_cases hv : v = .prior
  · subst hv
    obtain ⟨k, rfl, hk⟩ := portTerm_prior h
    exact hk
  · rw [portTerm_of_ne hv] at h
    cases h
    rfl

/-- A handle is a variable or, for the version zero of a port, a constant. -/
theorem Canonical.var_or_prior (hc : t.Canonical m) (h : t.get? key v = some term) :
    (∃ x, term = .var x) ∨
      (∃ p, key = .port p) ∧ v = .prior ∧ ∃ k : Constant, term = .const k := by
  have hf := hc.fits h
  cases key with
  | step => exact .inl ⟨_, hf⟩
  | «local» name owner =>
    obtain ⟨sort, rfl⟩ := hf
    exact .inl ⟨_, rfl⟩
  | port p =>
    by_cases hv : v = .prior
    · subst hv
      obtain ⟨k, rfl, -⟩ := portTerm_prior hf
      exact .inr ⟨⟨p, rfl⟩, rfl, k, rfl⟩
    · exact .inl ⟨_, Except.ok.inj (hf.symm.trans (portTerm_of_ne hv))⟩

/-! ### Handles on demand -/

/-- The handles of ports. -/
def PortHandle (m : Model) : SymbolKey → Version → Term → Prop
  | .port p, v, term => portTerm m p v = .ok term
  | _, _, _ => False

theorem port_ok {p : PortId} (h : t.port m p v = .ok (term, t')) :
    GrowsBy (PortHandle m) t t' ∧ t'.get? (.port p) v = some term := by
  unfold port at h
  split at h
  · next hg =>
    cases h
    exact ⟨.rfl, hg⟩
  · next hnone =>
    obtain ⟨a, ha, hp⟩ := Attempt.map_ok.1 h
    cases hp
    exact ⟨.add hnone ha, by rw [get?_add, if_pos ⟨rfl, rfl⟩]⟩

/-- The version under which a port is read before a modifier has written it. -/
def entryVersion (written : OrderedSet PortId) (p : PortId) : Version :=
  if p ∈ written then .current else .prior

theorem entryValue_ok {p : PortId} (h : t.entryValue m p = .ok (term, t')) :
    GrowsBy (PortHandle m) t t' ∧ t'.get? (.port p) (entryVersion t.written p) = some term :=
  port_ok h

theorem ofLocal_ok {name : String} {owner : Modifier} {sort : TermSort}
    (h : t.ofLocal name owner v sort = (term, t')) :
    GrowsBy (fun key v term =>
        key = .local name owner ∧ term = .var ⟨symbolName name v owner.text, sort⟩) t t' ∧
      t'.get? (.local name owner) v = some term := by
  unfold ofLocal at h
  split at h
  · next hg =>
    cases h
    exact ⟨.rfl, hg⟩
  · next hnone =>
    cases h
    exact ⟨.add hnone ⟨rfl, rfl⟩, by rw [get?_add, if_pos ⟨rfl, rfl⟩]⟩

end SymbolTable

end HybridStep
