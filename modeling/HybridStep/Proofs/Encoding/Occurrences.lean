import HybridStep.Proofs.Encoding.Influences
import HybridStep.Proofs.Smt.Occurrence

/-! # Variables of constraints

What the encoding builds from handles has no other variables than the handles have, and the handles
stand in the table. So every variable of a constraint of a step is a symbol of its table. -/

namespace HybridStep

namespace Term

variable {P : Variable → Prop} {l r t c yes no : Term} {ts : List Term} {op : Operator}

/-! ### Checked construction -/

theorem over_mkEq (h : mkEq l r = .ok t) (hl : l.Over P) (hr : r.Over P) : t.Over P := by
  unfold mkEq at h
  split_ifs at h
  cases h
  simp [hl, hr]

theorem over_mkJunction {unit : Bool} (h : mkJunction op unit ts = .ok t)
    (hts : ∀ u ∈ ts, u.Over P) : t.Over P := by
  obtain ⟨-, rfl⟩ := mkJunction_ok h
  split_ifs
  · simp
  · simpa using hts

theorem over_mkNot (h : mkNot l = .ok t) (hl : l.Over P) : t.Over P := by
  unfold mkNot at h
  split at h
  · cases h
    simp
  · split_ifs at h
    cases h
    simpa using hl

theorem over_mkXor (h : mkXor l r = .ok t) (hl : l.Over P) (hr : r.Over P) : t.Over P := by
  unfold mkXor at h
  split_ifs at h
  split at h <;> cases h <;> simp [hl, hr]

theorem over_mkIte (h : mkIte c yes no = .ok t) (hc : c.Over P) (hyes : yes.Over P)
    (hno : no.Over P) : t.Over P := by
  obtain ⟨-, -, rfl⟩ := mkIte_ok h
  simp [hc, hyes, hno]

theorem over_mkToReal (h : mkToReal l = .ok t) (hl : l.Over P) : t.Over P := by
  unfold mkToReal at h
  split at h
  · cases h
    simp
  · split at h <;> cases h
    · exact hl
    · simpa using hl

theorem over_mkNeg (h : mkNeg l = .ok t) (hl : l.Over P) : t.Over P := by
  unfold mkNeg at h
  split at h
  · cases h
    split <;> simp
  · cases h
    simp
  · split_ifs at h
    cases h
    simpa using hl

theorem over_mkArith (h : mkArith op l r = .ok t) (hl : l.Over P) (hr : r.Over P) : t.Over P := by
  unfold mkArith at h
  split_ifs at h
  cases h
  cases hfold : foldArith op l r with
  | none => simp [hl, hr]
  | some u =>
    unfold foldArith at hfold
    split at hfold
    · obtain ⟨n, -, rfl⟩ := Option.map_eq_some_iff.1 hfold
      simp
    · obtain ⟨q, -, rfl⟩ := Option.map_eq_some_iff.1 hfold
      simp
    · cases hfold

theorem over_mkCompare (h : mkCompare op l r = .ok t) (hl : l.Over P) (hr : r.Over P) :
    t.Over P := by
  unfold mkCompare at h
  split_ifs at h
  cases h
  split <;> simp [hl, hr]

end Term

/-! ### Operations -/

variable {P : Variable → Prop} {l r t : Term}

/-- An operand that is a term has only variables with a property. -/
def Operand.Over (P : Variable → Prop) : Operand → Prop
  | .term t => t.Over P
  | .tag _ => True
  | .opaqueText _ => True

theorem Operand.Over.toTerm {o : Operand} (h : o.Over P) (ht : o.toTerm = .ok t) : t.Over P := by
  cases o with
  | term u =>
    cases ht
    exact h
  | tag | opaqueText => cases ht

theorem over_tagOfSort {tag : String} {s : TermSort} (h : tagOfSort tag s = .ok t) : t.Over P := by
  unfold tagOfSort at h
  split at h
  · unfold tagTerm at h
    split at h <;> cases h
    simp
  · cases h

theorem over_widen {u v : Term} (h : l.widen r = .ok (u, v)) (hl : l.Over P) (hr : r.Over P) :
    u.Over P ∧ v.Over P := by
  unfold Term.widen at h
  split at h
  · obtain ⟨a, ha, hpair⟩ := Attempt.map_ok.1 h
    cases hpair
    exact ⟨Term.over_mkToReal (checked_eq_ok.1 ha) hl, hr⟩
  · obtain ⟨a, ha, hpair⟩ := Attempt.map_ok.1 h
    cases hpair
    exact ⟨hl, Term.over_mkToReal (checked_eq_ok.1 ha) hr⟩
  · cases h
    exact ⟨hl, hr⟩

theorem over_unify {a b : Operand} {u v : Term} (h : a.unify b = .ok (u, v)) (ha : a.Over P)
    (hb : b.Over P) : u.Over P ∧ v.Over P := by
  cases a <;> cases b <;> try cases h
  case term.term => exact over_widen h ha hb
  case tag.term =>
    obtain ⟨x, hx, hpair⟩ := Attempt.map_ok.1 h
    cases hpair
    exact ⟨over_tagOfSort hx, hb⟩
  case term.tag =>
    obtain ⟨x, hx, hpair⟩ := Attempt.map_ok.1 h
    cases hpair
    exact ⟨ha, over_tagOfSort hx⟩

theorem over_encodeUnary {op : UnaryOp} (h : encodeUnary op l = .ok t) (hl : l.Over P) :
    t.Over P := by
  unfold encodeUnary at h
  cases op with
  | not =>
    simp only at h
    split at h
    · exact Term.over_mkNot (checked_eq_ok.1 h) hl
    · obtain ⟨u, hu, h⟩ := Attempt.bind_ok.1 h
      have hnegated := Term.over_mkNeg (checked_eq_ok.1 hu) hl
      exact Term.over_mkArith (checked_eq_ok.1 h) hnegated (by simp)
    · cases h
  | neg =>
    simp only at h
    split_ifs at h
    exact Term.over_mkNeg (checked_eq_ok.1 h) hl
  | identity =>
    cases h
    exact hl

theorem over_encodeArith {op : Operator} (h : encodeArith op l r = .ok t) (hl : l.Over P)
    (hr : r.Over P) : t.Over P := by
  obtain ⟨⟨u, v⟩, huv, h⟩ := Attempt.bind_ok.1 h
  obtain ⟨hu, hv⟩ := over_widen huv hl hr
  exact Term.over_mkArith (checked_eq_ok.1 h) hu hv

theorem over_encodeBinary {op : BinaryOp} (h : encodeBinary op l r = .ok t) (hl : l.Over P)
    (hr : r.Over P) : t.Over P := by
  have hboth : ∀ u ∈ [l, r], u.Over P := by simp [hl, hr]
  unfold encodeBinary at h
  cases op <;> simp only at h
  case add | sub | mul | pow => exact over_encodeArith h hl hr
  case div =>
    split_ifs at h
    · exact Term.over_mkArith (checked_eq_ok.1 h) hl hr
    · exact over_encodeArith h hl hr
  case mod => exact Term.over_mkArith (checked_eq_ok.1 h) hl hr
  case bitAnd | bitOr =>
    split_ifs at h
    exact Term.over_mkJunction (checked_eq_ok.1 h) hboth
  case bitXor =>
    split_ifs at h
    exact Term.over_mkXor (checked_eq_ok.1 h) hl hr
  case shl | shr => cases h

theorem over_encodeCompare {op : CmpOp} {a b : Operand} (h : encodeCompare op a b = .ok t)
    (ha : a.Over P) (hb : b.Over P) : t.Over P := by
  obtain ⟨⟨u, v⟩, huv, h⟩ := Attempt.bind_ok.1 h
  obtain ⟨hu, hv⟩ := over_unify huv ha hb
  exact Term.over_mkCompare (checked_eq_ok.1 h) hu hv

theorem over_encodePairs : ∀ {ops : List CmpOp} {a : Operand} {bs : List Operand} {ts : List Term},
    encodePairs ops a bs = .ok ts → a.Over P → (∀ b ∈ bs, b.Over P) → ∀ t ∈ ts, t.Over P
  | [], _, _, _, h, _, _ => by
    cases h
    simp
  | _ :: _, _, [], _, h, _, _ => by
    cases h
    simp
  | op :: ops, a, b :: bs, ts, h, ha, hbs => by
    rw [List.forall_mem_cons] at hbs
    obtain ⟨first, hfirst, h⟩ := Attempt.bind_ok.1 h
    obtain ⟨others, hothers, h⟩ := Attempt.bind_ok.1 h
    cases h
    exact List.forall_mem_cons.2 ⟨over_encodeCompare hfirst ha hbs.1,
      over_encodePairs hothers hbs.1 hbs.2⟩

namespace Context

variable {c : Context}

theorem over_literal {hint : Option TermSort} {value : Literal} {o : Operand}
    (h : literal hint value = .ok o) : o.Over P := by
  cases value with
  | int | real | bool =>
    cases h
    exact Term.over_const _
  | text tag =>
    simp only [literal] at h
    split at h
    · next e =>
      obtain ⟨t, ht, rfl⟩ := Attempt.map_ok.1 h
      exact over_tagOfSort (s := .enum e) ht
    · cases h
      trivial

theorem over_junction {op : BoolOp} {ts : List Term} (h : junction op ts = .ok t)
    (hts : ∀ u ∈ ts, u.Over P) : t.Over P := by
  cases op <;> exact Term.over_mkJunction (checked_eq_ok.1 h) hts

theorem over_chosen {cond : Term} {yes no : Operand} (h : chosen cond yes no = .ok t)
    (hc : cond.Over P) (hyes : yes.Over P) (hno : no.Over P) : t.Over P := by
  obtain ⟨⟨u, v⟩, huv, h⟩ := Attempt.bind_ok.1 h
  obtain ⟨hu, hv⟩ := over_unify huv hyes hno
  exact Term.over_mkIte (checked_eq_ok.1 h) hc hu hv

theorem over_compared {ops : List CmpOp} {left : Operand} {others : List Operand}
    (h : compared ops left others = .ok t) (hl : left.Over P) (hos : ∀ o ∈ others, o.Over P) :
    t.Over P := by
  obtain ⟨ts, hts, h⟩ := Attempt.bind_ok.1 h
  exact Term.over_mkJunction (checked_eq_ok.1 h) (over_encodePairs hts hl hos)

theorem over_equate {handle : Term} {key : VarKey} {o : Operand} (h : c.equate handle key o = .ok t)
    (hh : handle.Over P) (ho : o.Over P) : t.Over P := by
  obtain ⟨u, hu, h⟩ := Attempt.bind_ok.1 h
  refine Term.over_mkEq (checked_eq_ok.1 h) hh ?_
  cases o with
  | tag => exact over_tagOfSort hu
  | opaqueText => cases hu
  | term v =>
    simp only [Context.bind] at hu
    split at hu
    · exact Term.over_mkToReal (checked_eq_ok.1 hu) ho
    · cases hu
    · cases hu
      exact ho

theorem over_equateAll {o : Operand} (ho : o.Over P) : ∀ {hs : List (VarKey × Term)}
    {ts : List Term}, c.equateAll o hs = .ok ts → (∀ h ∈ hs, h.2.Over P) → ∀ t ∈ ts, t.Over P
  | [], ts, h, _ => by
    cases h
    simp
  | (key, handle) :: rest, ts, h, hhs => by
    rw [List.forall_mem_cons] at hhs
    obtain ⟨first, hfirst, h⟩ := Attempt.bind_ok.1 h
    obtain ⟨others, hothers, h⟩ := Attempt.bind_ok.1 h
    cases h
    exact List.forall_mem_cons.2 ⟨over_equate hfirst hhs.1 ho, over_equateAll ho hothers hhs.2⟩

theorem over_closing {current latest : Term} {ts : List Term} (h : closing current latest = .ok ts)
    (hc : current.Over P) (hl : latest.Over P) : ∀ t ∈ ts, t.Over P := by
  unfold closing at h
  split_ifs at h
  · cases h
    simp
  · obtain ⟨t, ht, rfl⟩ := Attempt.map_ok.1 h
    exact List.forall_mem_singleton.2 (Term.over_mkEq (checked_eq_ok.1 ht) hc hl)

theorem over_forked {cond : Term} {yes no : List Term} (h : forked cond yes no = .ok t)
    (hc : cond.Over P) (hyes : ∀ u ∈ yes, u.Over P) (hno : ∀ u ∈ no, u.Over P) : t.Over P := by
  obtain ⟨y, hy, h⟩ := Attempt.bind_ok.1 h
  obtain ⟨n, hn, h⟩ := Attempt.bind_ok.1 h
  exact Term.over_mkIte (checked_eq_ok.1 h) hc (Term.over_mkJunction (checked_eq_ok.1 hy) hyes)
    (Term.over_mkJunction (checked_eq_ok.1 hn) hno)

end Context

/-! ### Handles -/

/-- The variable is a handle of the table. -/
def SymbolTable.Has (T : SymbolTable) (x : Variable) : Prop :=
  ∃ key v, T.get? key v = some (.var x)

theorem SymbolTable.Canonical.over_handle {m : Model} {T : SymbolTable} {key : SymbolKey}
    {v : Version} {term : Term} (hc : T.Canonical m) (h : T.get? key v = some term) :
    term.Over T.Has := by
  rcases hc.var_or_prior h with ⟨x, rfl⟩ | ⟨-, -, k, rfl⟩
  · exact Term.over_var.2 ⟨key, v, h⟩
  · exact Term.over_const k

/-! ### Encodings that use handles of a table -/

namespace Context

open Encoder (lift onTable pass)

variable {α β : Type} {c : Context} {T : SymbolTable}

/-- An encoding that only adds, and whose result has a property as soon as a table has all handles
made so far. -/
structure Yields (c : Context) (T : SymbolTable) (x : Encoder α) (Q : α → Prop) : Prop where
  adds : c.Adds x
  gives {p p' : Progress} {a : α} : x p = .ok a p' → p'.table.Extends T → Q a

section

variable {x : Encoder α} {Q : α → Prop} {f : α → Encoder β} {R : β → Prop}

theorem Yields.imp {Q' : α → Prop} (hx : c.Yields T x Q) (h : ∀ a, Q a → Q' a) : c.Yields T x Q' :=
  ⟨hx.adds, fun ha hT => h _ (hx.gives ha hT)⟩

theorem Yields.pure {a : α} (h : Q a) : c.Yields T (pure a) Q :=
  ⟨.pure a, fun ha _ => (Stateful.pure_ok.1 ha).1 ▸ h⟩

theorem Yields.throw (e : EncodingError) : c.Yields T (throw e) Q :=
  ⟨.throw e, fun h => (Stateful.throw_ok h).elim⟩

theorem Yields.lift (r : Except EncodingError α) :
    c.Yields T (Encoder.lift r) fun a => r = .ok a :=
  ⟨.lift r, fun h _ => (Encoder.lift_ok.1 h).1⟩

/-- The second part may use what is known of the result of the first one, but it only adds in any
case. -/
theorem Yields.bind (hx : c.Yields T x Q) (hf : ∀ a, c.Yields T (f a) fun b => Q a → R b) :
    c.Yields T (x >>= f) R := by
  refine ⟨.bind hx.adds fun a => (hf a).adds, fun h hT => ?_⟩
  obtain ⟨a, q, ha, hb⟩ := Stateful.bind_ok.1 h
  exact (hf a).gives hb hT (hx.gives ha (((hf a).adds hb).table.toExtends.trans hT))

theorem Yields.map {g : α → β} (hx : c.Yields T x Q) (h : ∀ a, Q a → R (g a)) :
    c.Yields T (g <$> x) R := by
  refine ⟨.map g hx.adds, fun hb hT => ?_⟩
  obtain ⟨a, ha, rfl⟩ := Stateful.map_ok.1 hb
  exact h a (hx.gives ha hT)

theorem Yields.pass (text : String) : c.Yields T (pass text) fun _ => True :=
  ⟨.pass text, fun _ _ => trivial⟩

end

section

variable (hc : T.Canonical c.model) (s : Scope)

include hc

theorem yields_port (q : PortId) (v : Version) :
    c.Yields T (Encoder.onTable (·.port c.model q v)) (·.Over T.Has) :=
  ⟨.port q v, fun h hT => hc.over_handle (hT.kept (port_ok h))⟩

theorem yields_readKey (key : VarKey) : c.Yields T (c.readKey s key) (·.Over T.Has) :=
  ⟨adds_readKey s key, fun h hT => hc.over_handle (hT.kept (readKey_ok h))⟩

theorem yields_writeKey (key : VarKey) : c.Yields T (c.writeKey s key) (·.Over T.Has) :=
  ⟨adds_writeKey s key, fun h hT => hc.over_handle (hT.kept (writeKey_ok h))⟩

omit hc in
theorem yields_keyOf (n : Node) : c.Yields T (c.keyOf n) fun _ => True :=
  ⟨adds_keyOf n, fun _ _ => trivial⟩

theorem yields_readNode (n : Node) : c.Yields T (c.readNode s n) (·.Over T.Has) :=
  .bind (yields_keyOf n) fun key => (yields_readKey hc s key).imp fun _ h _ => h

theorem yields_readName (name : String) : c.Yields T (c.readName s name) (·.Over T.Has) := by
  refine ⟨adds_readName s name, fun {p p' t} h hT => ?_⟩
  unfold readName at h
  split at h
  · obtain ⟨q, p₁, hget, h⟩ := Stateful.bind_ok.1 h
    obtain ⟨rfl, rfl⟩ := Stateful.get_ok.1 hget
    obtain ⟨rfl, rfl⟩ := Stateful.pure_ok.1 h
    have hstep : p.table.step = T.step := by rw [SymbolTable.step, SymbolTable.step, hT.stepName]
    rw [hstep]
    exact hc.over_handle hc.step
  · exact (yields_readNode hc s _).gives h hT

end

/-! #### Expressions -/

mutual

theorem yields_expr (hc : T.Canonical c.model) (s : Scope) : (n : Node) → (hint : Option TermSort) →
    c.Yields T (c.expr s hint n) (·.Over T.Has)
  | .literal _, _ => (Yields.lift _).imp fun _ => over_literal
  | .name n, _ => (yields_readName hc s n).map fun _ h => h
  | .access _, _ => (yields_readNode hc s _).map fun _ h => h
  | .unary .identity operand, hint => yields_expr hc s operand hint
  | .unary .not operand, _ =>
    (yields_expr hc s operand none).bind fun _ => (Yields.lift _).bind fun _ =>
      (Yields.lift _).map fun _ ht hu ho => over_encodeUnary ht (ho.toTerm hu)
  | .unary .neg operand, _ =>
    (yields_expr hc s operand none).bind fun _ => (Yields.lift _).bind fun _ =>
      (Yields.lift _).map fun _ ht hu ho => over_encodeUnary ht (ho.toTerm hu)
  | .binary _ left right, _ =>
    (yields_expr hc s left none).bind fun _ => (Yields.lift _).bind fun _ =>
      (yields_expr hc s right none).bind fun _ => (Yields.lift _).bind fun _ =>
        (Yields.lift _).map fun _ ht hr hro hl hlo =>
          over_encodeBinary ht (hlo.toTerm hl) (hro.toTerm hr)
  | .logical _ values, _ =>
    (yields_truths hc s values).bind fun _ => (Yields.lift _).map fun _ => over_junction
  | .compare left _ others, _ =>
    (yields_expr hc s left none).bind fun _ => (yields_exprs hc s others).bind fun _ =>
      (Yields.lift _).map fun _ ht hos hl => over_compared ht hl hos
  | .choice test body orelse, hint =>
    (yields_expr hc s test (some .bool)).bind fun _ => (Yields.lift _).bind fun _ =>
      (yields_expr hc s body hint).bind fun _ => (yields_expr hc s orelse hint).bind fun _ =>
        (Yields.lift _).map fun _ ht hno hyes hcond htest =>
          over_chosen ht (htest.toTerm hcond) hyes hno
  | .unsupported _, _ => (Yields.pass _).bind fun _ => .pure fun _ => trivial
  | .assign .., _ => .throw _
  | .augment .., _ => .throw _
  | .branch .., _ => .throw _
  | .ret _, _ => .throw _
  | .block _, _ => .throw _

theorem yields_exprs (hc : T.Canonical c.model) (s : Scope) : (ns : List Node) →
    c.Yields T (c.exprs s ns) fun os => ∀ o ∈ os, o.Over T.Has
  | [] => .pure (List.forall_mem_nil _)
  | n :: ns =>
    (yields_expr hc s n none).bind fun _ => (yields_exprs hc s ns).bind fun _ =>
      .pure fun hothers hfirst => List.forall_mem_cons.2 ⟨hfirst, hothers⟩

theorem yields_truths (hc : T.Canonical c.model) (s : Scope) : (ns : List Node) →
    c.Yields T (c.truths s ns) fun ts => ∀ t ∈ ts, t.Over T.Has
  | [] => .pure (List.forall_mem_nil _)
  | n :: ns =>
    (yields_expr hc s n (some .bool)).bind fun _ => (Yields.lift _).bind fun _ =>
      (yields_truths hc s ns).bind fun _ =>
        .pure fun hothers ht ho => List.forall_mem_cons.2 ⟨ho.toTerm ht, hothers⟩

end

section

variable (hc : T.Canonical c.model) (s : Scope)

include hc

theorem yields_term (hint : Option TermSort) (n : Node) :
    c.Yields T (c.term s hint n) (·.Over T.Has) :=
  (yields_expr hc s n hint).bind fun _ => (Yields.lift _).imp fun _ ht ho => ho.toTerm ht

/-! #### Statements and paths -/

theorem yields_targetHandles : (targets : List Node) →
    c.Yields T (c.targetHandles s targets) fun hs => ∀ h ∈ hs, h.2.Over T.Has
  | [] => .pure (List.forall_mem_nil _)
  | n :: ns =>
    (yields_keyOf n).bind fun key => (yields_writeKey hc s key).bind fun _ =>
      (yields_targetHandles ns).bind fun _ =>
        .pure fun hothers hfirst _ => List.forall_mem_cons.2 ⟨hfirst, hothers⟩

theorem yields_statement (n : Node) :
    c.Yields T (c.statement s n) fun ts => ∀ t ∈ ts, t.Over T.Has := by
  cases n <;> try exact .throw _
  case assign targets value =>
    refine (yields_targetHandles hc s targets).bind fun handles => ?_
    refine (yields_expr hc s value _).bind fun o => ?_
    cases o with
    | opaqueText => exact .pure fun _ _ => List.forall_mem_nil _
    | term | tag => exact (Yields.lift _).imp fun _ hts ho hhs => over_equateAll ho hts hhs
  case augment target op value =>
    exact (yields_keyOf target).bind fun key => (yields_readKey hc s key).bind fun _ =>
      (yields_term hc s none value).bind fun _ => (Yields.lift _).bind fun _ =>
        (yields_writeKey hc s key).bind fun _ => (Yields.lift _).bind fun _ =>
          .pure fun heq hhandle hcombined hvalue hheld _ => List.forall_mem_singleton.2
            (over_equate heq hhandle (over_encodeBinary hcombined hheld hvalue))
  case unsupported text => exact (Yields.pass _).bind fun _ => .pure fun _ => List.forall_mem_nil _

theorem yields_closePorts : (ps : List PortId) →
    c.Yields T (c.closePorts s ps) fun ts => ∀ t ∈ ts, t.Over T.Has
  | [] => .pure (List.forall_mem_nil _)
  | p :: ps =>
    (yields_port hc p .current).bind fun _ => (yields_readKey hc s (.port p)).bind fun _ =>
      (Yields.lift _).bind fun _ => (yields_closePorts ps).bind fun _ =>
        .pure fun hothers hfirst hlatest hcurrent =>
          List.forall_mem_append.2 ⟨over_closing hfirst hcurrent hlatest, hothers⟩

theorem yields_returned (value : Option Node) :
    c.Yields T (c.returned s value) fun ts => ∀ t ∈ ts, t.Over T.Has := by
  unfold returned
  split
  · exact .throw _
  · exact .throw _
  · next target value _ =>
    refine (yields_port hc target .current).bind fun _ => ?_
    refine (yields_expr hc s value _).bind fun o => ?_
    cases o with
    | opaqueText => exact .pure fun _ _ => List.forall_mem_nil _
    | term | tag =>
      exact (Yields.lift _).bind fun _ => .pure fun heq ho hhandle =>
        List.forall_mem_singleton.2 (over_equate heq hhandle ho)

end

theorem yields_paths (hc : T.Canonical c.model) : (fl : Flow) → (s : Scope) →
    c.Yields T (c.paths fl s) fun ts => ∀ t ∈ ts, t.Over T.Has
  | .done, s => yields_closePorts hc s _
  | .step statement rest, s =>
    (yields_statement hc s statement).bind fun _ => (yields_paths hc rest _).bind fun _ =>
      .pure fun hthere hhere => List.forall_mem_append.2 ⟨hhere, hthere⟩
  | .ret value, s =>
    (yields_closePorts hc s _).bind fun _ => (yields_returned hc s value).bind fun _ =>
      .pure fun hwritten hclosed => List.forall_mem_append.2 ⟨hclosed, hwritten⟩
  | .fork test whole yes no, s => by
    unfold paths
    refine (yields_term hc s _ test).bind fun cond => ?_
    have hrest : c.Yields T (do
        let yes ← c.paths yes (c.scope yes.straight s.versions)
        let no ← c.paths no (c.scope no.straight s.versions)
        let choice ← Encoder.lift (forked cond yes no)
        return [choice]) fun ts => cond.Over T.Has → ∀ t ∈ ts, t.Over T.Has :=
      (yields_paths hc yes _).bind fun _ => (yields_paths hc no _).bind fun _ =>
        (Yields.lift _).bind fun _ => .pure fun hchoice hno hyes hcond =>
          List.forall_mem_singleton.2 (over_forked hchoice hcond hyes hno)
    split
    · exact (Yields.throw (Q := fun _ => True) _).bind fun _ => hrest.imp fun _ h _ => h
    · exact hrest

end Context

/-! ### Modifiers -/

variable {m : Model} {options : Options} {t t' T : SymbolTable}

theorem over_of_encodeUpdate {u : UpdateId} {f : UpdateFunction} {r : BodyConstraints}
    (h : encodeUpdate m options u f t = .ok r t') (hT : t'.Extends T) (hc : T.Canonical m) :
    ∀ e ∈ r.constraints, e.Over T.Has := by
  obtain ⟨q, hq, -, rfl⟩ := encodeUpdate_ok h
  have hyields := Context.yields_paths (c := bodyContext m options u f) hc (.ofBody f.body)
  exact (hyields _).gives hq ((SymbolTable.extends_markAll _).trans hT)

theorem over_of_encodeInfluence {i : InfluenceId} {equation : Term}
    (h : encodeInfluence m i t = .ok equation t') (hT : t'.Extends T) (hc : T.Canonical m) :
    equation.Over T.Has := by
  obtain ⟨target, source, htarget, hsource, heq⟩ := encodeInfluence_inside h hT
  exact Context.over_equate (equate_of_influenceEquation heq default (.local ""))
    (hc.over_handle htarget) (hc.over_handle hsource)

end HybridStep
