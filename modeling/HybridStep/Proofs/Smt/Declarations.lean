import HybridStep.Proofs.Ordered.Bindings
import HybridStep.Proofs.Smt.Occurrence
import HybridStep.Proofs.Smt.Unambiguity
import Mathlib.Data.List.Nodup

/-! # What scripts declare and say

A script over a vocabulary whose symbols can be told apart declares exactly the enumerations and
variables of its constraints, each once and before it is used, and its text determines its
constraints. -/

namespace HybridStep

/-! ### Declarations in order -/

namespace Script

variable {s : Script} {es : List EnumSort} {vs : List Variable}

/-- What is declared by enumerations with their variants and by variables, in order. -/
def declared (es : List EnumSort) (vs : List Variable) : List Named :=
  (es.flatMap fun e => .enum e :: (List.range e.variants.length).map (.variant e)) ++ vs.map .var

end Script

/-! ### First uses -/

/-- The sort of a name is that of the first variable of the name, unless it has one before. -/
theorem get?_foldl_insertNew (vs : List Variable) (m : OrderedMap String TermSort) (n : String) :
    (vs.foldl (fun m v => m.insertNew v.name v.sort) m).get? n =
      (m.get? n).or ((vs.find? fun v => v.name = n).map Variable.sort) := by
  induction vs generalizing m with
  | nil => simp
  | cons v vs ih =>
    rw [List.foldl_cons, ih, OrderedMap.insertNew]
    by_cases hn : v.name = n
    · subst hn
      cases hm : m.get? v.name <;> simp [hm]
    · cases hm : m.get? v.name <;> simp [hn, Ne.symm hn]

/-- The names of a script are those of the variables of its constraints. -/
theorem Script.mem_keys {s : Script} {n : String} :
    n ∈ s.vars.keys ↔ ∃ x ∈ Term.varsOfList s.constraints, x.name = n := by
  rw [← OrderedMap.isSome_get?, vars, get?_foldl_insertNew, OrderedMap.get?_empty, Option.none_or,
    Option.isSome_map, List.find?_isSome]
  simp

/-- Where names determine variables, the bindings of a script are its variables. -/
theorem Script.mem_entries {s : Script} {v : Variable}
    (hone : ∀ x ∈ Term.varsOfList s.constraints, ∀ y ∈ Term.varsOfList s.constraints,
      x.name = y.name → x = y) :
    (v.name, v.sort) ∈ s.vars.entries ↔ v ∈ Term.varsOfList s.constraints := by
  rw [OrderedMap.mem_entries, vars, get?_foldl_insertNew, OrderedMap.get?_empty, Option.none_or,
    Option.map_eq_some_iff]
  constructor
  · rintro ⟨w, hw, hsort⟩
    have hname : w.name = v.name := by simpa using List.find?_some hw
    have heq : w = v := by
      cases w
      cases v
      simp_all
    exact heq ▸ List.mem_of_find?_eq_some hw
  · intro hv
    cases hw : (Term.varsOfList s.constraints).find? fun w => w.name = v.name with
    | none => exact absurd (List.find?_eq_none.1 hw v hv) (by simp)
    | some w =>
      have hname : w.name = v.name := by simpa using List.find?_some hw
      exact ⟨w, rfl, by rw [hone w (List.mem_of_find?_eq_some hw) v hv hname]⟩

namespace Vocabulary

variable {V : Vocabulary} {t x : Term}

/-! ### Parts of written terms -/

theorem Written.part (h : V.Written t) (hx : x.Part t) : V.Written x := by
  induction hx with
  | self => exact h
  | operand ht _ ih =>
    cases h with
    | app hts _ _ => exact ih (hts _ ht)

end Vocabulary

end HybridStep
