import HybridStep.Proofs.Meaning.Combinator
import HybridStep.Proofs.Smt.Construction
import HybridStep.Proofs.Smt.Occurrence

/-! # Exactness of checked construction

Variables are told apart by name and sort, and an assignment gives each a value. What a construction
gives evaluates to what its operator gives on the values of the operands, in every ordered field and
for all total functions that agree with division, remainder and powers where these are defined. -/

namespace HybridStep

variable {K : Type}

/-- The values of the variables. -/
abbrev Assignment (K : Type) := Variable → Val K

/-- The variables of a term have values of their sorts. -/
def Assignment.Fits (ρ : Assignment K) (t : Term) : Prop := t.Over fun v => (ρ v).sort = v.sort

variable [Field K] [LinearOrder K] {A : Arith K} {ρ : Assignment K}

/-! ### Values under an assignment -/

namespace Term

variable {t : Term}

mutual

/-- The value of a term under an assignment. -/
def eval (A : Arith K) (ρ : Assignment K) : Term → Val K
  | const c => c.val
  | var v => ρ v
  | app op args _ => op.apply A (evals A ρ args)

/-- The values of the terms of a list. -/
def evals (A : Arith K) (ρ : Assignment K) : List Term → List (Val K)
  | [] => []
  | t :: ts => t.eval A ρ :: evals A ρ ts

end

theorem evals_eq_map (ts : List Term) : evals A ρ ts = ts.map (eval A ρ) := by
  induction ts with
  | nil => rfl
  | cons t ts ih => rw [evals, ih, List.map_cons]

/-- A constant denotes its value, whatever the variables stand for. -/
theorem denotes_eval {σ : Valuation K} (hc : t.isConstant) (ht : t.WellSorted) :
    t.Denotes A σ (t.eval A ρ) := by
  cases t with
  | const c =>
    cases c with
    | int n => exact denotes_int n
    | real q => exact denotes_real q
    | bool b => exact denotes_bool b
    | tag e i =>
      cases ht with
      | const hi =>
        have htag : Val.tag? (K := K) e i = some (.tag e ⟨i, hi e i rfl⟩) := dif_pos (hi e i rfl)
        have heval : eval A ρ (const (.tag e i)) = .tag e ⟨i, hi e i rfl⟩ := by
          simp [eval, Constant.val, htag]
        exact heval ▸ denotes_tag htag
  | var | app => cases hc

end Term

omit [Field K] [LinearOrder K] in
theorem Val.two_of_sorts {vs : List (Val K)} {a b : TermSort} (h : vs.map Val.sort = [a, b]) :
    ∃ v w, vs = [v, w] ∧ v.sort = a ∧ w.sort = b := by
  obtain ⟨v, vs, rfl, hv, h⟩ := List.map_eq_cons_iff.1 h
  obtain ⟨w, vs, rfl, hw, h⟩ := List.map_eq_cons_iff.1 h
  exact ⟨v, w, by rw [List.map_eq_nil_iff.1 h], hv, hw⟩

omit [Field K] [LinearOrder K] in
theorem Val.one_of_sort {vs : List (Val K)} {a : TermSort} (h : vs.map Val.sort = [a]) :
    ∃ v, vs = [v] ∧ v.sort = a := by
  obtain ⟨v, vs, rfl, hv, h⟩ := List.map_eq_cons_iff.1 h
  exact ⟨v, by rw [List.map_eq_nil_iff.1 h], hv⟩

theorem Operator.apply_two {op : Operator} (h : op.isArithmetic ∨ op.isComparison)
    (v w : Val K) : op.apply A [v, w] = op.onTwo A v w := by
  cases op <;> first
    | rfl
    | simp [isArithmetic, isComparison] at h

theorem Operator.sort_apply_of_takesArith {op : Operator} {v w : Val K} {s : TermSort}
    (h : Term.takesArith op s) (hv : v.sort = s) (hw : w.sort = s) :
    (op.apply A [v, w]).sort = s := by
  subst hv
  rw [apply_two (.inl (Term.signature_of_takesArith h).1)]
  exact Term.sort_onTwo_of_takesArith hw.symm h

theorem Operator.sort_apply_of_takesCompare {op : Operator} {v w : Val K} {s : TermSort}
    (h : Term.takesCompare op s) (hv : v.sort = s) (hw : w.sort = s) :
    (op.apply A [v, w]).sort = .bool := by
  rw [apply_two (.inr (Term.signature_of_takesCompare h).1)]
  exact Term.sort_onTwo_of_takesCompare hv hw h

/-- On values of sorts that it takes an operator gives a value of the sort that it gives. -/
theorem Operator.Signature.sort_apply {op : Operator} {vs : List (Val K)} {s : TermSort}
    (h : op.Signature (vs.map Val.sort) s) : (op.apply A vs).sort = s := by
  generalize hvs : vs.map Val.sort = ss at h
  cases h with
  | and | or => rfl
  | eq | distinct =>
    obtain ⟨v, w, rfl, -, -⟩ := Val.two_of_sorts hvs
    rfl
  | not =>
    obtain ⟨v, rfl, hv⟩ := Val.one_of_sort hvs
    obtain ⟨b, rfl⟩ := Val.sort_eq_bool.1 hv
    rfl
  | toReal =>
    obtain ⟨v, rfl, hv⟩ := Val.one_of_sort hvs
    obtain ⟨n, rfl⟩ := Val.sort_eq_int.1 hv
    rfl
  | neg hs =>
    obtain ⟨v, rfl, rfl⟩ := Val.one_of_sort hvs
    cases v <;> first | rfl | cases hs
  | xor =>
    obtain ⟨v, w, rfl, hv, hw⟩ := Val.two_of_sorts hvs
    obtain ⟨a, rfl⟩ := Val.sort_eq_bool.1 hv
    obtain ⟨b, rfl⟩ := Val.sort_eq_bool.1 hw
    rfl
  | ite s =>
    obtain ⟨c, vs, rfl, -, hvs⟩ := List.map_eq_cons_iff.1 hvs
    obtain ⟨v, w, rfl, hv, hw⟩ := Val.two_of_sorts hvs
    simp only [Operator.apply]
    split_ifs
    · exact hv
    · exact hw
  | add hs | sub hs | mul hs | pow hs =>
    obtain ⟨v, w, rfl, hv, hw⟩ := Val.two_of_sorts hvs
    exact sort_apply_of_takesArith hs hv hw
  | div | intDiv | mod =>
    obtain ⟨v, w, rfl, hv, hw⟩ := Val.two_of_sorts hvs
    exact sort_apply_of_takesArith rfl hv hw
  | order hop hs =>
    obtain ⟨v, w, rfl, hv, hw⟩ := Val.two_of_sorts hvs
    refine sort_apply_of_takesCompare ?_ hv hw
    cases op <;> first | exact hs | cases hop

/-- A well-sorted term has a value of its sort. -/
theorem Term.WellSorted.sort_eval {t : Term} (ht : t.WellSorted) (hρ : ρ.Fits t) :
    (t.eval A ρ).sort = t.sort := by
  induction ht with
  | @const c hc => exact (Term.denotes_eval (σ := fun _ => .bool false) rfl (.const hc)).2
  | var v => exact Term.over_var.1 hρ
  | @app op ts s _ hsig ih =>
    have hmap : ts.map (Val.sort ∘ Term.eval A ρ) = ts.map Term.sort :=
      List.map_congr_left fun t ht => ih t ht (Term.over_app.1 hρ t ht)
    refine Operator.Signature.sort_apply ?_
    rw [Term.evals_eq_map, List.map_map, hmap]
    exact hsig

/-! ### Meanings of constructions -/

/-- What a combinator stands for: its operator, except that a real that is widened stays as it
is. -/
def Construction.meaning (A : Arith K) (c : Construction) (vs : List (Val K)) : Val K :=
  match c, vs with
  | .toReal _, [.real x] => .real x
  | c, vs => c.operator.apply A vs

namespace Construction

variable {c : Construction} {t l r : Term}

theorem eval_app {s : TermSort} (hops : ∀ x ∈ c.operands, x.WellSorted)
    (hρ : ∀ x ∈ c.operands, ρ.Fits x)
    (hsig : c.operator.Signature (c.operands.map Term.sort) s) :
    (Term.app c.operator c.operands s).eval A ρ =
      c.meaning A (c.operands.map (Term.eval A ρ)) := by
  rw [Term.eval, Term.evals_eq_map]
  cases c with
  | toReal x =>
    have hs := (hops x List.mem_cons_self).sort_eval (A := A) (hρ x List.mem_cons_self)
    obtain ⟨n, hn⟩ := Val.sort_eq_int.1 (hs.trans hsig.sort_toReal)
    simp only [operands, List.map, hn]
    rfl
  | _ => rfl

/-! ### Folded constants -/

theorem mkToReal_of_real {x : Term} (hs : x.sort = .real) (h : Term.mkToReal x = .ok t) :
    t = x := by
  unfold Term.mkToReal at h
  split at h
  · cases hs
  · rw [hs] at h
    exact (Except.ok.inj h).symm

/-- A folded constant has the value that it denotes, whatever the variables stand for. -/
theorem Folded.eval_eq {σ : Valuation K} {v : Val K} (hf : c.Folded t) (h : t.Denotes A σ v) :
    t.eval A ρ = v := (Term.denotes_eval hf.isConstant hf.wellSorted).1.symm.trans h.1

/-- What the operands of a folded constant denote. -/
theorem Folded.denotes {σ : Valuation K} (hf : c.Folded t) (hops : ∀ x ∈ c.operands, x.WellSorted)
    (x : Term) (hx : x ∈ c.operands) : x.Denotes A σ (x.eval A ρ) :=
  Term.denotes_eval (hf.constants x hx) (hops x hx)

/-- A folded constant is what the operator gives on the constants that it is folded from. -/
theorem eval_folded [IsStrictOrderedRing K] (hops : ∀ x ∈ c.operands, x.WellSorted)
    (hf : c.Folded t) (h : c.build = .ok t) :
    t.eval A ρ = c.meaning A (c.operands.map (Term.eval A ρ)) := by
  have hden := hf.denotes (A := A) (ρ := ρ) (σ := fun _ => .bool false) hops
  have hacc := (build_ok h).1
  cases c with
  | eq l r =>
    simp only [build, Term.mkEq] at h
    split_ifs at h
    cases h
    cases hf.isConstant
  | and ts =>
    obtain ⟨-, -, rfl | ⟨rfl, rfl⟩⟩ := junction_ok h
    · cases hf.isConstant
    · rfl
  | or ts =>
    obtain ⟨-, -, rfl | ⟨rfl, rfl⟩⟩ := junction_ok h
    · cases hf.isConstant
    · rfl
  | not x =>
    have hx := hden x List.mem_cons_self
    obtain ⟨b, hb⟩ := Val.sort_eq_bool.1 (hx.2.trans (Operator.Signature.sort_not hacc))
    rw [hb] at hx
    simp only [operands, List.map, hb]
    exact hf.eval_eq (Term.denotes_mkNot hx h)
  | xor l r =>
    have hl := hden l List.mem_cons_self
    have hr := hden r (List.mem_cons_of_mem _ List.mem_cons_self)
    obtain ⟨hsl, hsr⟩ := Operator.Signature.sorts_xor hacc
    obtain ⟨a, ha⟩ := Val.sort_eq_bool.1 (hl.2.trans hsl)
    obtain ⟨b, hb⟩ := Val.sort_eq_bool.1 (hr.2.trans hsr)
    rw [ha] at hl
    rw [hb] at hr
    simp only [operands, List.map, ha, hb]
    exact hf.eval_eq (Term.denotes_mkXor hl hr h)
  | ite x yes no =>
    obtain ⟨-, -, rfl⟩ := Term.mkIte_ok h
    cases hf.isConstant
  | toReal x =>
    have hx := hden x List.mem_cons_self
    simp only [operands, List.map]
    cases hv : x.eval A ρ with
    | int n => exact hf.eval_eq (Term.denotes_mkToReal (hv ▸ hx) h)
    | real y =>
      obtain rfl := mkToReal_of_real (hx.2.symm.trans (by rw [hv]; rfl)) h
      exact hv
    | bool | tag =>
      have hsort := hx.2
      rw [hv] at hsort
      rcases hacc.2 with hs | hs
      · cases hsort.trans hs
      · cases hsort.trans hs.sort_toReal
  | neg x =>
    have hx := hden x List.mem_cons_self
    have hs := Operator.Signature.isNumeric_neg hacc
    rw [← hx.2] at hs
    simp only [operands, List.map]
    cases hv : x.eval A ρ with
    | int n => exact hf.eval_eq (Term.denotes_mkNeg_int (hv ▸ hx) h)
    | real y => exact hf.eval_eq (Term.denotes_mkNeg_real (hv ▸ hx) h)
    | bool | tag =>
      rw [hv] at hs
      cases hs
  | arith op l r =>
    have hl := hden l List.mem_cons_self
    have hr := hden r (List.mem_cons_of_mem _ List.mem_cons_self)
    exact (hf.eval_eq (Term.denotes_mkArith hl hr h)).trans
      (Operator.apply_two (.inl hacc.1) _ _).symm
  | compare op l r =>
    have hl := hden l List.mem_cons_self
    have hr := hden r (List.mem_cons_of_mem _ List.mem_cons_self)
    exact (hf.eval_eq (Term.denotes_mkCompare hl hr h)).trans
      (Operator.apply_two (.inr hacc.1) _ _).symm

/-- **Checked construction is exact.** On well-sorted operands a combinator succeeds exactly if its
operator takes their sorts, with the one sort that the operator gives. Its result is well sorted, a
division by a zero constant is left as an application, and folded or not the result evaluates to
what the operator gives on the values of the operands. -/
theorem build_exact (hops : ∀ x ∈ c.operands, x.WellSorted) :
    ((∃ t, c.build = .ok t) ↔ ∃ s, c.Accepts s) ∧
      ∀ t, c.build = .ok t → (∀ s, c.Accepts s ↔ s = t.sort) ∧ t.WellSorted ∧
        (c.DividesByZero → t = .app c.operator c.operands t.sort) ∧
        ∀ (K : Type) [Field K] [LinearOrder K] [IsStrictOrderedRing K] (A : Arith K)
          (ρ : Assignment K), (∀ x ∈ c.operands, ρ.Fits x) →
            t.eval A ρ = c.meaning A (c.operands.map (Term.eval A ρ)) := by
  refine ⟨⟨fun ⟨t, h⟩ => ⟨t.sort, (build_ok h).1⟩, fun ⟨s, h⟩ => exists_build h⟩, fun t h => ?_⟩
  obtain ⟨hacc, hgives⟩ := build_ok h
  refine ⟨fun s => ⟨fun hs => hs.unique hacc, fun hs => hs ▸ hacc⟩, wellSorted_build hops h,
    fun hz => build_of_dividesByZero hz h, fun K _ _ _ A ρ hρ => ?_⟩
  cases hgives with
  | app hsig => exact eval_app hops hρ hsig
  | folded hf => exact eval_folded hops hf h
  | same hc =>
    subst hc
    have hs := (hops t List.mem_cons_self).sort_eval (A := A) (hρ t List.mem_cons_self)
    have hreal : t.sort = .real := hacc.1
    simp only [operands, List.map]
    cases hv : t.eval A ρ with
    | real x => rfl
    | int | bool | tag =>
      rw [hv, hreal] at hs
      cases hs

/-- The remainder of `-7` by `2` is folded, the quotient of a variable and zero is not, and both
evaluate to what their operators give. -/
theorem build_exact_divisions :
    let mod := arith .mod (.int ⟨-7, by decide, by decide⟩) (.int ⟨2, by decide, by decide⟩)
    let div := arith .div (.var ⟨"x", .real⟩) (.real 0)
    let ρ : Assignment ℚ := fun _ => .real 3
    (∃ t, mod.build = .ok t ∧ t.isConstant ∧
      t.eval default ρ = mod.meaning default [.int (-7), .int 2]) ∧
    ∃ t, div.build = .ok t ∧ t = .app .div div.operands .real ∧
      t.eval default ρ = div.meaning default [.real 3, .real 0] := by
  intro mod div ρ
  have hmod : ∀ x ∈ mod.operands, x.WellSorted := by
    simp [mod, operands, Term.wellSorted_int]
  have hdiv : ∀ x ∈ div.operands, x.WellSorted := by
    simp [div, operands, Term.wellSorted_real, Term.WellSorted.var]
  obtain ⟨t, ht⟩ := (build_exact hmod).1.2 ⟨.int, rfl, .mod⟩
  obtain ⟨u, hu⟩ := (build_exact hdiv).1.2 ⟨.real, rfl, .div⟩
  obtain ⟨-, -, -, heval⟩ := (build_exact hmod).2 t ht
  obtain ⟨hsort, -, hzero, heval'⟩ := (build_exact hdiv).2 u hu
  have hreal : TermSort.real = u.sort := (hsort _).1 ⟨rfl, .div⟩
  refine ⟨⟨t, ht, ?_, ?_⟩, u, hu, ?_, ?_⟩
  · obtain rfl : Term.int ⟨1, by decide, by decide⟩ = t := Except.ok.inj ht
    rfl
  · rw [heval ℚ default ρ (by simp [mod, operands, Assignment.Fits])]
    rfl
  · rw [hzero .real, ← hreal]
    rfl
  · rw [heval' ℚ default ρ (by simp [div, operands, Assignment.Fits, ρ, Val.sort])]
    simp [div, operands, Term.eval, Constant.val, ρ, Term.real]

end Construction

end HybridStep
