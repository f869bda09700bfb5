import HybridStep.Proofs.Encoding.Narrowing

/-! # Sorts at the positions of a body

What is told of the sort of an expression is told once for the whole body, from the sorts of its
locals. Wherever in the body the expression stands, and whatever has been encoded before it, the
term that it becomes there is of this sort: the handles of a name differ in their versions, but not
in their sort. -/

namespace HybridStep

namespace Context

variable {c : Context} {entry : Entry} {T : LocalSorts.Table}

/-! ### Tables with the sorts of all locals -/

/-- The table has the sort of every local that is looked up to tell the sort of an expression: the
inferred or declared one, or else the sort of locals for which none can be told. -/
def Completes (c : Context) (T : LocalSorts.Table) (n : Node) : Prop :=
  ∀ name ∈ LocalSorts.consulted c.leaf n, T.get? name = some (c.sortOfLocal name)

theorem ofLeaf_sorted {n : Node}
    (h : ∀ name ∈ (c.leaf n).local?.toList, T.get? name = some (c.sortOfLocal name)) :
    LocalSorts.ofLeaf T (c.leaf n) = LocalSorts.ofLeaf .empty (c.sortedLeaf n) := by
  unfold sortedLeaf
  cases hleaf : c.leaf n with
  | «local» name =>
    rw [hleaf] at h
    exact h name (List.mem_singleton_self name)
  | sort | unknown => rfl

/-- A table with the sorts of all locals tells of an expression what their sorts tell. -/
theorem infer_eq_sortOf : ∀ n : Node, c.Completes T n → LocalSorts.infer c.leaf T n = c.sortOf n
  | .literal _, _ => rfl
  | .name _, h => ofLeaf_sorted h
  | .access _, h => ofLeaf_sorted h
  | .unary op operand, h => by
    have hoperand := infer_eq_sortOf operand h
    simp only [sortOf] at hoperand
    simp only [sortOf, LocalSorts.infer, hoperand]
  | .binary op left right, h => by
    obtain ⟨hleft, hright⟩ := List.forall_mem_append.1 h
    have hleft := infer_eq_sortOf left hleft
    have hright := infer_eq_sortOf right hright
    simp only [sortOf] at hleft hright
    simp only [sortOf, LocalSorts.infer, hleft, hright]
  | .choice _ body orelse, h => by
    obtain ⟨hbody, horelse⟩ := List.forall_mem_append.1 h
    have hbody := infer_eq_sortOf body hbody
    have horelse := infer_eq_sortOf orelse horelse
    simp only [sortOf] at hbody horelse
    simp only [sortOf, LocalSorts.infer, hbody, horelse]
  | .logical .., _ => rfl
  | .compare .., _ => rfl
  | .assign .., _ => rfl
  | .augment .., _ => rfl
  | .branch .., _ => rfl
  | .ret _, _ => rfl
  | .block _, _ => rfl
  | .unsupported _, _ => rfl

/-! ### Positions -/

/-- Where the encoding of a body can stand: what is left of the flow, the counts of writes there,
and the progress that has been made. At a position names are read and written and expressions are
encoded; then the encoding moves on past a statement, or into an arm of a fork, into the other one
after the whole of the first. -/
inductive Visits (c : Context) (body : List Node) (t : SymbolTable) : Flow → Scope → Progress → Prop
  | start :
    Visits c body t (.ofBody body) (c.scope (Flow.ofBody body).straight .empty) { table := t }
  | read {fl : Flow} {s : Scope} {p p' : Progress} {key : VarKey} {x : Term} :
    Visits c body t fl s p → c.readKey s key p = .ok x p' → Visits c body t fl s p'
  | write {fl : Flow} {s : Scope} {p p' : Progress} {key : VarKey} {x : Term} :
    Visits c body t fl s p → c.writeKey s key p = .ok x p' → Visits c body t fl s p'
  | postStep {fl : Flow} {s : Scope} {p p' : Progress} {q : PortId} {x : Term} :
    Visits c body t fl s p → Encoder.onTable (·.port c.model q .current) p = .ok x p' →
      Visits c body t fl s p'
  | expr {fl : Flow} {s : Scope} {p p' : Progress} {hint : Option TermSort} {n : Node}
      {o : Operand} :
    Visits c body t fl s p → c.expr s hint n p = .ok o p' → Visits c body t fl s p'
  | step {n : Node} {rest : Flow} {s : Scope} {p p' : Progress} {here : List Term} :
    Visits c body t (.step n rest) s p → c.statement s n p = .ok here p' →
      Visits c body t rest { s with position := s.position + 1 } p'
  | yes {test : Node} {whole : Bool} {yes no : Flow} {s : Scope} {p p' : Progress} {cond : Term} :
    Visits c body t (.fork test whole yes no) s p → c.term s (some .bool) test p = .ok cond p' →
      Visits c body t yes (c.scope yes.straight s.versions) p'
  | no {test : Node} {whole : Bool} {yes no : Flow} {s : Scope} {p p' p'' : Progress} {cond : Term}
      {there : List Term} :
    Visits c body t (.fork test whole yes no) s p → c.term s (some .bool) test p = .ok cond p' →
      c.paths yes (c.scope yes.straight s.versions) p' = .ok there p'' →
      Visits c body t no (c.scope no.straight s.versions) p''

/-- An encoding that succeeds leaves what it found. -/
theorem Computes.settled {α : Type} {x : Encoder α} {r : Except EncodingError α}
    {texts : List String} {p p' : Progress} {a : α} (h : c.Computes entry x r texts)
    (hp : c.Settled entry p) (hx : x p = .ok a p') : r = .ok a ∧ c.Settled entry p' := by
  have hr := h hp
  cases r with
  | ok b =>
    obtain ⟨q, hq, hsettled, -⟩ := hr
    obtain ⟨rfl, rfl⟩ := EStateM.Result.ok.inj (hx.symm.trans hq)
    exact ⟨rfl, hsettled⟩
  | error e =>
    obtain ⟨q, hq, -⟩ := hr
    cases hx.symm.trans hq

/-- At every position the handles of the table are what their names and versions say. -/
theorem Visits.settled {body : List Node} {t : SymbolTable} {fl : Flow} {s : Scope} {p : Progress}
    (h : c.Visits body t fl s p) (ht : c.Settled entry { table := t }) : c.Settled entry p := by
  induction h with
  | start => exact ht
  | read _ hread ih => exact ((computes_readKey _).settled ih hread).2
  | write _ hwrite ih => exact ((computes_writeKey _).settled ih hwrite).2
  | postStep _ hport ih => exact ((computes_port _ _).settled ih hport).2
  | expr _ hexpr ih => exact ((computes_expr _ _ _).settled ih hexpr).2
  | step _ hstep ih => exact ((computes_statement _).settled ih hstep).2
  | yes _ hcond ih => exact ((computes_term _ _).settled ih hcond).2
  | no _ hcond hyes ih =>
    have hcond := ((computes_term _ _).settled ih hcond).2
    exact ((computes_paths _ (at_scope _ _)).settled hcond hyes).2

end Context

/-! ### Updates -/

variable {m : Model} {options : Options} {u : UpdateId} {f : UpdateFunction} {t : SymbolTable}
variable {fl : Flow} {s : Scope} {p p' : Progress} {hint : Option TermSort} {n : Node} {x : Term}
variable {T : LocalSorts.Table} {sort : TermSort}

/-- **An expression becomes a term of the sort that is told of it**, wherever it stands in the body
of an update, where every local has its inferred or declared sort or the one for which none can be
told. -/
theorem sort_of_visited (ht : Earlier m options (.update u) t)
    (hvisits : (bodyContext m options u f).Visits f.body t fl s p)
    (hexpr : (bodyContext m options u f).expr s hint n p = .ok (.term x) p')
    (hT : (bodyContext m options u f).Completes T n)
    (hsort : LocalSorts.infer (bodyContext m options u f).leaf T n = some sort) :
    x.sort = sort := by
  have hsettled := hvisits.settled ht.tidy.settled
  have hplain := ((Context.computes_expr s n hint).settled hsettled hexpr).1
  have htold := Context.told_plain n hplain
  rw [← Context.infer_eq_sortOf n hT, hsort] at htold
  exact htold.sort_eq

/-- An update that returns a sum of an integer and a quotient of a local that is never written. -/
def quotientDefinition : ModelDefinition where
  resources := [⟨"num", none, .named "real"⟩]
  entity := .mk "e" [⟨"p", .internal, "num", .number (.int 0)⟩] ["s"] none
    [⟨"u", "s", "p", "|s, dt| \x7b let a = 1; a + b / a \x7d"⟩] [] []

/-- The sum. -/
def quotientSum : Node :=
  .binary .add (.name "a") (.binary .div (.name "b") (.name "a"))

/-- After the first statement the sum becomes a real, as is told of it. -/
theorem quotient_sort_of_visited : ∃ m e f rest s p x p', quotientDefinition.build = .ok (m, e) ∧
    ⟨0⟩ ∈ m.activeUpdates e ∧ UpdateFunction.read (m.update ⟨0⟩).function = .ok f ∧
    Earlier m {} (.update ⟨0⟩) (.fresh "dt") ∧
    (bodyContext m {} ⟨0⟩ f).Visits f.body (.fresh "dt") rest s p ∧
    (bodyContext m {} ⟨0⟩ f).expr s (some .real) quotientSum p = .ok (.term x) p' ∧
    (bodyContext m {} ⟨0⟩ f).Completes ((bodyContext m {} ⟨0⟩ f).localSorts.insert "b" .real)
      quotientSum ∧
    LocalSorts.infer (bodyContext m {} ⟨0⟩ f).leaf
      ((bodyContext m {} ⟨0⟩ f).localSorts.insert "b" .real) quotientSum = some .real ∧
    x.sort = .real := by
  have h : Attempt.succeeds (fun (built : Model × EntityId) =>
      ⟨0⟩ ∈ built.1.activeUpdates built.2 &&
      Attempt.succeeds (fun f => !(Flow.ofBody f.body).straight.isEmpty &&
        Stateful.succeeds (fun _ p => Stateful.succeeds (fun o _ =>
          Attempt.succeeds (fun _ => decide (
            (∀ name ∈ LocalSorts.consulted (bodyContext built.1 {} ⟨0⟩ f).leaf quotientSum,
              ((bodyContext built.1 {} ⟨0⟩ f).localSorts.insert "b" .real).get? name =
                some ((bodyContext built.1 {} ⟨0⟩ f).sortOfLocal name)) ∧
            LocalSorts.infer (bodyContext built.1 {} ⟨0⟩ f).leaf
              ((bodyContext built.1 {} ⟨0⟩ f).localSorts.insert "b" .real) quotientSum =
                some .real)) o.toTerm)
          ((bodyContext built.1 {} ⟨0⟩ f).expr
            { (bodyContext built.1 {} ⟨0⟩ f).scope (Flow.ofBody f.body).straight .empty with
              position := 1 } (some .real) quotientSum p))
          ((bodyContext built.1 {} ⟨0⟩ f).statement
            ((bodyContext built.1 {} ⟨0⟩ f).scope (Flow.ofBody f.body).straight .empty)
            ((Flow.ofBody f.body).straight.headD default) { table := .fresh "dt" }))
      (UpdateFunction.read (built.1.update ⟨0⟩).function)) quotientDefinition.build := by
    decide +kernel
  obtain ⟨⟨m, e⟩, hbuild, h⟩ := Attempt.exists_of_succeeds h
  rw [Bool.and_eq_true, decide_eq_true_eq] at h
  obtain ⟨hu, h⟩ := h
  obtain ⟨f, hf, h⟩ := Attempt.exists_of_succeeds h
  rw [Bool.and_eq_true] at h
  obtain ⟨hstraight, h⟩ := h
  obtain ⟨here, p, hstatement, h⟩ := Stateful.exists_of_succeeds h
  obtain ⟨o, p', hexpr, h⟩ := Stateful.exists_of_succeeds h
  obtain ⟨x, hterm, h⟩ := Attempt.exists_of_succeeds h
  obtain ⟨hT, hsort⟩ := of_decide_eq_true h
  obtain rfl : o = .term x := by
    cases o with
    | term t => exact congrArg Operand.term (Except.ok.inj hterm)
    | tag | opaqueText => cases hterm
  have hstart : (bodyContext m {} ⟨0⟩ f).Visits f.body (.fresh "dt") (.ofBody f.body)
      ((bodyContext m {} ⟨0⟩ f).scope (Flow.ofBody f.body).straight .empty)
      { table := .fresh "dt" } := .start
  cases hflow : Flow.ofBody f.body with
  | step n rest =>
    rw [hflow] at hstart hstatement hexpr
    have hvisits := hstart.step hstatement
    exact ⟨m, e, f, rest, _, p, x, p', hbuild, hu, hf, .fresh, hvisits, hexpr, hT, hsort,
      sort_of_visited .fresh hvisits hexpr hT hsort⟩
  | done | ret | fork =>
    rw [hflow] at hstraight
    cases hstraight

end HybridStep
