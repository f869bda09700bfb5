import HybridStep.Proofs.Encoding.Growth
import HybridStep.Proofs.Encoding.Parts
import HybridStep.Proofs.Meaning.Execution

/-! # Meaning of encoded expressions

An expression is encoded with the handles under which its names are read at its position. If these
handles denote the values of a store, the expression has a value in the store, and its encoding
denotes this value. -/

namespace HybridStep.Context

variable {c : Context} {s : Scope} {p p' : Progress}

/-- The key of the handles of a name. -/
def symbolKey (c : Context) : VarKey → SymbolKey
  | .port p => .port p
  | .local name => .local name c.modifier

/-- The version under which a name is read after a number of writes. -/
def readVersion (written : OrderedSet PortId) (key : VarKey) : Nat → Version
  | 0 =>
    match key with
    | .port p => SymbolTable.entryVersion written p
    | .local _ => .current
  | k + 1 => .index (k + 1)

theorem localHandle_ok {name : String} {v : Version} {t : Term}
    (h : c.localHandle name v p = .ok t p') :
    p'.table.get? (.local name c.modifier) v = some t := by
  obtain ⟨_, ht, rfl⟩ := Encoder.onTable_ok.1 h
  exact (SymbolTable.ofLocal_ok (Except.ok.inj ht)).2

theorem port_ok {q : PortId} {v : Version} {t : Term}
    (h : Encoder.onTable (·.port c.model q v) p = .ok t p') :
    p'.table.get? (.port q) v = some t := by
  obtain ⟨_, ht, rfl⟩ := Encoder.onTable_ok.1 h
  exact (SymbolTable.port_ok ht).2

theorem readKey_ok {key : VarKey} {t : Term} (h : c.readKey s key p = .ok t p') :
    p'.table.get? (c.symbolKey key) (readVersion p.table.written key (s.previous key)) =
      some t := by
  unfold readKey Scope.read at h
  generalize s.previous key = k at *
  cases key with
  | port q =>
    cases k with
    | zero =>
      obtain ⟨_, ht, rfl⟩ := Encoder.onTable_ok.1 h
      exact (SymbolTable.entryValue_ok ht).2
    | succ k => exact port_ok h
  | «local» name => cases k <;> exact localHandle_ok h

theorem writeKey_ok {key : VarKey} {t : Term} (h : c.writeKey s key p = .ok t p') :
    p'.table.get? (c.symbolKey key) (.index (s.previous key + 1)) = some t := by
  cases key with
  | port q => exact port_ok h
  | «local» name => exact localHandle_ok h

/-! ### Tables that hold all handles -/

/-- All handles made so far are in a given table, and given ports are noted as written. -/
structure Inside (T : SymbolTable) (written : OrderedSet PortId) (p : Progress) : Prop where
  handles : p.table.Extends T
  written : p.table.written = written

variable {T : SymbolTable} {W : OrderedSet PortId}

theorem Inside.back (h : Inside T W p') (hg : c.Grew p p') : Inside T W p :=
  ⟨hg.table.toExtends.trans h.handles, hg.table.written.symm.trans h.written⟩

variable {K : Type} [Field K] [LinearOrder K]

/-- The handles under which names are read after given numbers of writes denote the values of a
store. -/
structure Reads (c : Context) (A : Arith K) (σ : Valuation K) (T : SymbolTable)
    (written : OrderedSet PortId) (count : VarKey → Nat) (st : Store K) : Prop where
  dt : σ T.stepName = .real st.dt
  names {key : VarKey} {t : Term} :
    T.get? (c.symbolKey key) (readVersion written key (count key)) = some t →
      t.Denotes A σ (st.val key)

variable {A : Arith K} {σ : Valuation K} {st : Store K}

theorem Reads.readKey (hr : c.Reads A σ T W s.previous st) {key : VarKey} {t : Term}
    (h : c.readKey s key p = .ok t p') (hin : Inside T W p') : t.Denotes A σ (st.val key) := by
  have hW := (hin.back (adds_readKey s key h)).written
  exact hr.names (hin.handles.kept (hW ▸ readKey_ok h))

theorem Reads.readNode (hr : c.Reads A σ T W s.previous st) {n : Node} {t : Term}
    (h : c.readNode s n p = .ok t p') (hin : Inside T W p') :
    ∃ key, c.key? n = some key ∧ t.Denotes A σ (st.val key) := by
  obtain ⟨key, q, hk, h⟩ := Stateful.bind_ok.1 h
  exact ⟨key, (keyOf_ok hk).1, hr.readKey h hin⟩

attribute [local simp] eval evalAll truthsOf

theorem literal_means {hint : Option TermSort} {l : Literal} {o : Operand}
    (h : literal hint l = .ok o) :
    ∃ d, c.eval A st hint (.literal l) = some d ∧ o.Means A σ d := by
  cases l with
  | int n => cases h; exact ⟨_, rfl, Term.denotes_int n⟩
  | real q => cases h; exact ⟨_, rfl, Term.denotes_real q⟩
  | bool b => cases h; exact ⟨_, rfl, Term.denotes_bool b⟩
  | text tag =>
    rcases hint with _ | _ | _ | _ | e
    case some.enum =>
      obtain ⟨t, ht, rfl⟩ := Attempt.map_ok.1 h
      obtain ⟨v, hv, hd⟩ := tagOfSort_denotes (s := .enum e) (A := A) (σ := σ) ht
      rw [Val.textAs?] at hv
      exact ⟨.val v, by simp only [eval, hv]; rfl, hd⟩
    all_goals
      cases h
      exact ⟨.text tag, rfl, rfl⟩

theorem junction_means {op : BoolOp} {ts : List Term} {bs : List Bool} {t : Term}
    (h : junction op ts = .ok t)
    (hts : List.Forall₂ (fun t b => t.Denotes A σ (.bool b)) ts bs) :
    t.Denotes A σ (.bool (op.apply bs)) := by
  cases op with
  | and => exact Term.denotes_mkAnd (checked_eq_ok.1 h) hts
  | or => exact Term.denotes_mkOr (checked_eq_ok.1 h) hts

theorem chosen_means {cond t : Term} {yes no : Operand} {b : Bool} {d d' : Datum K}
    (hc : cond.Denotes A σ (.bool b)) (hy : yes.Means A σ d) (hn : no.Means A σ d')
    (h : chosen cond yes no = .ok t) :
    ∃ v w, d.unify? d' = some (v, w) ∧ t.Denotes A σ (if b then v else w) := by
  obtain ⟨⟨l, r⟩, hu, h⟩ := Attempt.bind_ok.1 h
  obtain ⟨v, w, hd, hl, hr⟩ := unify_denotes hy hn hu
  exact ⟨v, w, hd, Term.denotes_mkIte hc hl hr (checked_eq_ok.1 h)⟩

theorem sort_of_junction {op : BoolOp} {ts : List Term} {t : Term}
    (h : junction op ts = .ok t) : ∀ x ∈ ts, x.sort = .bool := by
  cases op <;> exact (Term.mkJunction_ok (checked_eq_ok.1 h)).1

theorem truth_of_means {o : Operand} {d : Datum K} {t : Term} (h : o.Means A σ d)
    (ht : o.toTerm = .ok t) (hs : t.sort = .bool) :
    ∃ b, d.truth? = some b ∧ t.Denotes A σ (.bool b) := by
  obtain ⟨v, rfl, hv⟩ := h.of_toTerm ht
  obtain ⟨b, rfl⟩ := Val.sort_eq_bool.1 (hv.2.trans hs)
  exact ⟨b, rfl, hv⟩

/-- The encoding of an expression, wherever it is met, means what the expression gives. -/
abbrev Means (c : Context) (A : Arith K) (σ : Valuation K) (T : SymbolTable)
    (W : OrderedSet PortId) (s : Scope) (st : Store K) (n : Node) : Prop :=
  ∀ {hint : Option TermSort} {p p' : Progress} {o : Operand}, c.expr s hint n p = .ok o p' →
    Inside T W p' → ∃ d, c.eval A st hint n = some d ∧ o.Means A σ d

theorem Means.value {n : Node} (hn : c.Means A σ T W s st n) {hint : Option TermSort}
    {p q q' : Progress} {o : Operand} {t : Term} (h : c.expr s hint n p = .ok o q)
    (ht : Encoder.lift o.toTerm q = .ok t q') (hin : Inside T W q') :
    q = q' ∧ ∃ v, c.eval A st hint n = some (.val v) ∧ t.Denotes A σ v := by
  obtain ⟨hterm, rfl⟩ := Encoder.lift_ok.1 ht
  obtain ⟨d, hd, hm⟩ := hn h hin
  obtain ⟨v, rfl, hv⟩ := hm.of_toTerm hterm
  exact ⟨rfl, v, hd, hv⟩

theorem unary_means [IsStrictOrderedRing K] {op : UnaryOp} {operand : Node} (hop : op ≠ .identity)
    (hn : c.Means A σ T W s st operand) : c.Means A σ T W s st (.unary op operand) := by
  intro hint p p' o h hin
  have h' : (do
      let operand ← Encoder.lift (← c.expr s none operand).toTerm
      Operand.term <$> Encoder.lift (encodeUnary op operand) : Encoder Operand) p = .ok o p' := by
    cases op <;> first | exact h | exact absurd rfl hop
  obtain ⟨x, q, hx, h'⟩ := Stateful.bind_ok.1 h'
  obtain ⟨t, q', ht, h'⟩ := Stateful.bind_ok.1 h'
  obtain ⟨u, hres, rfl⟩ := Stateful.map_ok.1 h'
  obtain ⟨hu, rfl⟩ := Encoder.lift_ok.1 hres
  obtain ⟨rfl, v, hv, hd⟩ := hn.value hx ht hin
  obtain ⟨w, hw, hdw⟩ := encodeUnary_denotes hd hu
  refine ⟨.val w, ?_, hdw⟩
  cases op
  · simp [hv, Datum.val?, hw]
  · simp [hv, Datum.val?, hw]
  · exact absurd rfl hop

theorem binary_means [IsStrictOrderedRing K] {op : BinaryOp} {left right : Node}
    (hl : c.Means A σ T W s st left) (hr : c.Means A σ T W s st right) :
    c.Means A σ T W s st (.binary op left right) := by
  intro hint p p' o h hin
  obtain ⟨x, q, hx, h⟩ := Stateful.bind_ok.1 h
  obtain ⟨l, q1, hxl, h⟩ := Stateful.bind_ok.1 h
  obtain ⟨y, q2, hy, h⟩ := Stateful.bind_ok.1 h
  obtain ⟨r, q3, hyr, h⟩ := Stateful.bind_ok.1 h
  obtain ⟨u, hres, rfl⟩ := Stateful.map_ok.1 h
  obtain ⟨hu, rfl⟩ := Encoder.lift_ok.1 hres
  obtain ⟨rfl, w, hw, hdw⟩ := hr.value hy hyr hin
  obtain ⟨rfl, v, hv, hdv⟩ := hl.value hx hxl (hin.back (adds_expr s right none hy))
  obtain ⟨z, hz, hdz⟩ := encodeBinary_denotes hdv hdw hu
  exact ⟨.val z, by simp [hv, hw, Datum.val?, hz], hdz⟩

theorem choice_means {test body orelse : Node} (ht : c.Means A σ T W s st test)
    (hb : c.Means A σ T W s st body) (he : c.Means A σ T W s st orelse) :
    c.Means A σ T W s st (.choice test body orelse) := by
  intro hint p p' o h hin
  obtain ⟨x, q, hx, h⟩ := Stateful.bind_ok.1 h
  obtain ⟨cond, q1, hcond, h⟩ := Stateful.bind_ok.1 h
  obtain ⟨yes, q2, hyes, h⟩ := Stateful.bind_ok.1 h
  obtain ⟨no, q3, hno, h⟩ := Stateful.bind_ok.1 h
  obtain ⟨u, hres, rfl⟩ := Stateful.map_ok.1 h
  obtain ⟨hu, rfl⟩ := Encoder.lift_ok.1 hres
  have hinyes := hin.back (adds_expr s orelse hint hno)
  obtain ⟨rfl, v, hv, hdv⟩ := ht.value hx hcond (hinyes.back (adds_expr s body hint hyes))
  obtain ⟨d, hd, hmd⟩ := hb hyes hinyes
  obtain ⟨d', hd', hmd'⟩ := he hno hin
  have hbool : cond.sort = .bool := by
    obtain ⟨_, _, hu⟩ := Attempt.bind_ok.1 hu
    exact (Term.mkIte_ok (checked_eq_ok.1 hu)).1
  obtain ⟨b, rfl⟩ := Val.sort_eq_bool.1 (hdv.2.trans hbool)
  obtain ⟨v, w, hvw, hdu⟩ := chosen_means hdv hmd hmd' hu
  exact ⟨.val (if b then v else w), by simp [hv, Datum.truth?, hd, hd', hvw], hdu⟩

theorem logical_means {op : BoolOp} {values : List Node}
    (hvs : ∀ {p p' : Progress} {ts : List Term}, c.truths s values p = .ok ts p' →
      Inside T W p' → (∀ t ∈ ts, t.sort = .bool) → ∃ bs, c.truthsOf A st values = some bs ∧
        List.Forall₂ (fun t b => t.Denotes A σ (.bool b)) ts bs) :
    c.Means A σ T W s st (.logical op values) := by
  intro hint p p' o h hin
  obtain ⟨ts, q, hts, h⟩ := Stateful.bind_ok.1 h
  obtain ⟨u, hres, rfl⟩ := Stateful.map_ok.1 h
  obtain ⟨hu, rfl⟩ := Encoder.lift_ok.1 hres
  obtain ⟨bs, hbs, hm⟩ := hvs hts hin (sort_of_junction hu)
  exact ⟨.val (.bool (op.apply bs)), by simp [hbs], junction_means hu hm⟩

theorem compare_means [IsStrictOrderedRing K] {left : Node} {ops : List CmpOp} {others : List Node}
    (hl : c.Means A σ T W s st left)
    (hos : ∀ {p p' : Progress} {os : List Operand}, c.exprs s others p = .ok os p' →
      Inside T W p' → ∃ ds, c.evalAll A st others = some ds ∧
        List.Forall₂ (Operand.Means A σ) os ds) :
    c.Means A σ T W s st (.compare left ops others) := by
  intro hint p p' o h hin
  obtain ⟨x, q, hx, h⟩ := Stateful.bind_ok.1 h
  obtain ⟨os, q1, hxs, h⟩ := Stateful.bind_ok.1 h
  obtain ⟨u, hres, rfl⟩ := Stateful.map_ok.1 h
  obtain ⟨hu, rfl⟩ := Encoder.lift_ok.1 hres
  obtain ⟨ds, hds, hmds⟩ := hos hxs hin
  obtain ⟨d, hd, hmd⟩ := hl hx (hin.back (adds_exprs s others hxs))
  obtain ⟨ts, hts, hu⟩ := Attempt.bind_ok.1 hu
  obtain ⟨bs, hbs, hm⟩ := encodePairs_denotes hmd hmds hts
  exact ⟨.val (.bool (BoolOp.and.apply bs)), by simp [hd, hds, hbs],
    Term.denotes_mkAnd (checked_eq_ok.1 hu) hm⟩

mutual

/-- **An encoded expression means its value.** -/
theorem expr_means [IsStrictOrderedRing K] (hr : c.Reads A σ T W s.previous st) :
    (n : Node) → c.Means A σ T W s st n
  | .literal value => fun h _ => literal_means (Encoder.lift_ok.1 h).1
  | .name n => by
    intro h hin
    obtain ⟨t, ht, rfl⟩ := Stateful.map_ok.1 h
    unfold readName at ht
    split at ht
    · next hstep =>
      obtain ⟨q, q', hq, ht⟩ := Stateful.bind_ok.1 ht
      obtain ⟨rfl, rfl⟩ := Stateful.get_ok.1 hq
      obtain ⟨rfl, rfl⟩ := Stateful.pure_ok.1 ht
      refine ⟨.val (.real st.dt), by simp [hstep], ?_, rfl⟩
      rw [← hr.dt, hin.handles.stepName]; rfl
    · next hstep =>
      obtain ⟨key, hk, ht⟩ := hr.readNode ht hin
      exact ⟨.val (st.val key), by simp [hstep, hk], ht⟩
  | .access segments => by
    intro h hin
    obtain ⟨t, ht, rfl⟩ := Stateful.map_ok.1 h
    obtain ⟨key, hk, ht⟩ := hr.readNode ht hin
    exact ⟨.val (st.val key), by simp [hk], ht⟩
  | .unary .identity operand => fun h hin => expr_means hr operand h hin
  | .unary .not operand => unary_means (by simp) (expr_means hr operand)
  | .unary .neg operand => unary_means (by simp) (expr_means hr operand)
  | .binary _ left right => binary_means (expr_means hr left) (expr_means hr right)
  | .logical _ values => logical_means (truths_means hr values)
  | .compare left _ others => compare_means (expr_means hr left) (exprs_means hr others)
  | .choice test body orelse =>
    choice_means (expr_means hr test) (expr_means hr body) (expr_means hr orelse)
  | .unsupported text => by
    intro h hin
    obtain ⟨_, q, -, h⟩ := Stateful.bind_ok.1 h
    obtain ⟨rfl, -⟩ := Stateful.pure_ok.1 h
    exact ⟨.unknown, rfl, trivial⟩
  | .assign .. => fun h => (Stateful.throw_ok h).elim
  | .augment .. => fun h => (Stateful.throw_ok h).elim
  | .branch .. => fun h => (Stateful.throw_ok h).elim
  | .ret _ => fun h => (Stateful.throw_ok h).elim
  | .block _ => fun h => (Stateful.throw_ok h).elim

theorem exprs_means [IsStrictOrderedRing K] (hr : c.Reads A σ T W s.previous st) :
    (ns : List Node) → ∀ {p p' : Progress} {os : List Operand}, c.exprs s ns p = .ok os p' →
      Inside T W p' → ∃ ds, c.evalAll A st ns = some ds ∧ List.Forall₂ (Operand.Means A σ) os ds
  | [] => by
    intro h _
    obtain ⟨rfl, -⟩ := Stateful.pure_ok.1 h
    exact ⟨[], rfl, .nil⟩
  | n :: ns => by
    intro h hin
    obtain ⟨o, q, ho, h⟩ := Stateful.bind_ok.1 h
    obtain ⟨others, q1, hothers, h⟩ := Stateful.bind_ok.1 h
    obtain ⟨rfl, rfl⟩ := Stateful.pure_ok.1 h
    obtain ⟨ds, hds, hms⟩ := exprs_means hr ns hothers hin
    obtain ⟨d, hd, hm⟩ := expr_means hr n ho (hin.back (adds_exprs s ns hothers))
    exact ⟨d :: ds, by simp [hd, hds], .cons hm hms⟩

theorem truths_means [IsStrictOrderedRing K] (hr : c.Reads A σ T W s.previous st) :
    (ns : List Node) → ∀ {p p' : Progress} {ts : List Term}, c.truths s ns p = .ok ts p' →
      Inside T W p' → (∀ t ∈ ts, t.sort = .bool) → ∃ bs, c.truthsOf A st ns = some bs ∧
        List.Forall₂ (fun t b => t.Denotes A σ (.bool b)) ts bs
  | [] => by
    intro h _ _
    obtain ⟨rfl, -⟩ := Stateful.pure_ok.1 h
    exact ⟨[], rfl, .nil⟩
  | n :: ns => by
    intro h hin hbool
    obtain ⟨o, q, ho, h⟩ := Stateful.bind_ok.1 h
    obtain ⟨t, q1, ht, h⟩ := Stateful.bind_ok.1 h
    obtain ⟨others, q2, hothers, h⟩ := Stateful.bind_ok.1 h
    obtain ⟨rfl, rfl⟩ := Stateful.pure_ok.1 h
    obtain ⟨bs, hbs, hms⟩ := truths_means hr ns hothers hin fun t ht =>
      hbool t (List.mem_cons_of_mem _ ht)
    obtain ⟨hterm, rfl⟩ := Encoder.lift_ok.1 ht
    obtain ⟨d, hd, hm⟩ := expr_means hr n ho (hin.back (adds_truths s ns hothers))
    obtain ⟨b, hb, hdt⟩ := truth_of_means hm hterm (hbool t List.mem_cons_self)
    exact ⟨b :: bs, by simp [hd, hb, hbs], .cons hdt hms⟩

end

end HybridStep.Context
