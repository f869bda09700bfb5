import HybridStep.Proofs.Model.Built

/-! # The entities inside an entity

Entities form a forest: what lies inside two subentities of one entity is different. -/

namespace HybridStep.Model

/-- An entity is another one or lies inside it. -/
inductive Within (m : Model) (e : EntityId) : EntityId → Prop
  | self : Within m e e
  | inside {a p : EntityId} : (m.entity a).parent = some p → Within m e p → Within m e a

variable {m : Model} {e a s s' : EntityId}

theorem Within.le (h : m.Within e a) (hm : m.WellFormed) : e.index ≤ a.index := by
  induction h with
  | self => exact Nat.le_refl _
  | inside hp _ ih => exact Nat.le_trans ih (Nat.le_of_lt (hm.below hp))

theorem Within.trans {b : EntityId} (h : m.Within e a) (h' : m.Within a b) : m.Within e b := by
  induction h' with
  | self => exact h
  | inside hp _ ih => exact .inside hp ih

theorem within_of_subentity (hm : m.WellFormed) (hs : s ∈ (m.entity e).subentities) :
    m.Within e s := .inside (hm.subentities.owned hs).2 .self

theorem Within.antisymm (h : m.Within e a) (h' : m.Within a e) (hm : m.WellFormed) : e = a := by
  have heq := Nat.le_antisymm (h.le hm) (h'.le hm)
  cases e
  cases a
  exact congrArg _ heq

/-- Of two entities around a third one, one lies inside the other. -/
theorem Within.comparable (h : m.Within s a) (h' : m.Within s' a) :
    m.Within s s' ∨ m.Within s' s := by
  induction h with
  | self => exact .inr h'
  | inside hp hin ih =>
    cases h' with
    | self => exact .inl (.inside hp hin)
    | inside hp' hin' =>
      obtain rfl := Option.some.inj (hp.symm.trans hp')
      exact ih hin'

/-- An entity does not lie inside its subentities. -/
theorem not_within_subentity (hm : m.WellFormed) (hs : s ∈ (m.entity e).subentities) :
    ¬ m.Within s e := fun h =>
  Nat.not_lt.2 (h.le hm) (hm.below (hm.subentities.owned hs).2)

theorem eq_of_within_subentities (hm : m.WellFormed) (hs : s ∈ (m.entity e).subentities)
    (hs' : s' ∈ (m.entity e).subentities) (h : m.Within s a) (h' : m.Within s' a) : s = s' := by
  have hone : ∀ {b c}, b ∈ (m.entity e).subentities → c ∈ (m.entity e).subentities →
      m.Within b c → b = c := fun {b c} hb hc hbc => by
    cases hbc with
    | self => rfl
    | inside hp hin =>
      obtain rfl := Option.some.inj ((hm.subentities.owned hc).2.symm.trans hp)
      exact absurd hin (not_within_subentity hm hb)
  rcases h.comparable h' with hss | hss
  · exact hone hs hs' hss
  · exact (hone hs' hs hss).symm

end HybridStep.Model
