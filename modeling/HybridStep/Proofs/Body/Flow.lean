import HybridStep.Body.Flow
import HybridStep.Body.Footprint

/-! # Statements of a flow

The statements on the paths of a body are those of the body: what holds of all that a body writes
holds of what each statement of its flow writes, and a path ends with a return only if the body has
one. -/

namespace HybridStep.Flow

/-- Every statement of the flow has a property, and another one holds where a path returns. -/
def All (P : Node → Prop) (R : Prop) : Flow → Prop
  | done => True
  | step statement rest => P statement ∧ rest.All P R
  | ret _ => R
  | fork _ _ yes no => yes.All P R ∧ no.All P R

theorem All.mono {P P' : Node → Prop} {R R' : Prop} (hP : ∀ n, P n → P' n) (hR : R → R') :
    {fl : Flow} → fl.All P R → fl.All P' R'
  | done, _ => trivial
  | step _ _, h => ⟨hP _ h.1, h.2.mono hP hR⟩
  | ret _, h => hR h
  | fork _ _ _ _, h => ⟨h.1.mono hP hR, h.2.mono hP hR⟩

theorem All.and {P P' : Node → Prop} {R R' : Prop} :
    {fl : Flow} → fl.All P R → fl.All P' R' → fl.All (fun n => P n ∧ P' n) (R ∧ R')
  | done, _, _ => trivial
  | step _ _, h, h' => ⟨⟨h.1, h'.1⟩, h.2.and h'.2⟩
  | ret _, h, h' => ⟨h, h'⟩
  | fork _ _ _ _, h, h' => ⟨h.1.and h'.1, h.2.and h'.2⟩

variable {κ : Type} {key : Node → Option κ} {Q : κ → Prop} {R : Prop}

mutual

theorem all_prepend {rest : Flow} (hrest : rest.All (fun n => ∀ k ∈ n.writes key, Q k) R) :
    (n : Node) → (∀ k ∈ n.writes key, Q k) → (n.hasReturn = true → R) →
      (prepend rest n).All (fun n => ∀ k ∈ n.writes key, Q k) R
  | .ret _, _, hret => hret rfl
  | .branch _ body orelse, hw, hret => by
    simp only [Node.writes, List.mem_append, or_imp, forall_and] at hw
    simp only [Node.hasReturn, Bool.or_eq_true, or_imp] at hret
    exact ⟨all_prependList hrest body hw.1 hret.1, all_prependElse hrest orelse hw.2 hret.2⟩
  | .block body, hw, hret => all_prependList hrest body hw hret
  | .literal _, hw, _ => ⟨hw, hrest⟩
  | .name _, hw, _ => ⟨hw, hrest⟩
  | .access _, hw, _ => ⟨hw, hrest⟩
  | .assign .., hw, _ => ⟨hw, hrest⟩
  | .augment .., hw, _ => ⟨hw, hrest⟩
  | .unary .., hw, _ => ⟨hw, hrest⟩
  | .binary .., hw, _ => ⟨hw, hrest⟩
  | .logical .., hw, _ => ⟨hw, hrest⟩
  | .compare .., hw, _ => ⟨hw, hrest⟩
  | .choice .., hw, _ => ⟨hw, hrest⟩
  | .unsupported _, hw, _ => ⟨hw, hrest⟩

theorem all_prependList {rest : Flow} (hrest : rest.All (fun n => ∀ k ∈ n.writes key, Q k) R) :
    (ns : List Node) → (∀ k ∈ Node.writesOfList key ns, Q k) →
      (Node.hasReturnInList ns = true → R) →
      (prependList rest ns).All (fun n => ∀ k ∈ n.writes key, Q k) R
  | [], _, _ => hrest
  | n :: ns, hw, hret => by
    simp only [Node.writesOfList, List.mem_append, or_imp, forall_and] at hw
    simp only [Node.hasReturnInList, Bool.or_eq_true, or_imp] at hret
    exact all_prepend (all_prependList hrest ns hw.2 hret.2) n hw.1 hret.1

theorem all_prependElse {rest : Flow} (hrest : rest.All (fun n => ∀ k ∈ n.writes key, Q k) R) :
    (orelse : Option (List Node)) → (∀ k ∈ Node.writesOfElse key orelse, Q k) →
      (Node.hasReturnInElse orelse = true → R) →
      (prependElse rest orelse).All (fun n => ∀ k ∈ n.writes key, Q k) R
  | none, _, _ => hrest
  | some body, hw, hret => all_prependList hrest body hw hret

end

/-- What holds of everything that a body writes holds of the statements of its flow. -/
theorem all_ofBody {body : List Node} (hw : ∀ k ∈ Node.writesOfList key body, Q k)
    (hret : Node.hasReturnInList body = true → R) :
    (ofBody body).All (fun n => ∀ k ∈ n.writes key, Q k) R := by
  have hdone : done.All (fun n => ∀ k ∈ n.writes key, Q k) R := trivial
  exact all_prependList hdone body hw hret

end HybridStep.Flow
