import HybridStep.Smt.Term

/-! # Variables and parts of terms

What it means that a term has only variables with a property, and that a term is a part of another
one. -/

namespace HybridStep.Term

/-- Every variable of the term has a property. -/
def Over (P : Variable → Prop) (t : Term) : Prop := ∀ x ∈ t.vars, P x

variable {P : Variable → Prop} {ts : List Term} {op : Operator}

@[simp] theorem over_const (k : Constant) : (const k).Over P := by simp [Over, vars]

@[simp] theorem over_int (n : Word) : (int n).Over P := over_const _

@[simp] theorem over_real (q : Rat) : (real q).Over P := over_const _

@[simp] theorem over_bool (b : Bool) : (bool b).Over P := over_const _

@[simp] theorem over_tag (e : EnumSort) (i : Nat) : (tag e i).Over P := over_const _

@[simp] theorem over_var {x : Variable} : (var x).Over P ↔ P x := by simp [Over, vars]

theorem mem_varsOfList {x : Variable} : x ∈ varsOfList ts ↔ ∃ t ∈ ts, x ∈ t.vars := by
  induction ts with
  | nil => simp [varsOfList]
  | cons t ts ih => simp [varsOfList, ih]

@[simp] theorem over_app {s : TermSort} : (app op ts s).Over P ↔ ∀ t ∈ ts, t.Over P := by
  simp only [Over, vars, mem_varsOfList]
  exact ⟨fun h t ht x hx => h x ⟨t, ht, hx⟩, fun h x ⟨t, ht, hx⟩ => h t ht x hx⟩

/-! ### Parts -/

/-- A part of a term: the term itself, or a part of one of its operands. -/
inductive Part (x : Term) : Term → Prop
  | self : Part x x
  | operand {op : Operator} {ts : List Term} {s : TermSort} {t : Term} : t ∈ ts → Part x t →
    Part x (app op ts s)

end HybridStep.Term
