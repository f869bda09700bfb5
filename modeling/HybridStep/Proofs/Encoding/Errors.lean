import HybridStep.Proofs.Encoding.Plain

/-! # Errors of expressions

Expressions and names are never refused because of a narrowing: an operation widens its operands or
refuses them because of their sorts. So a body narrows only where a value meets the handle that a
statement or a return makes. -/

namespace HybridStep

/-- The name that is narrowed, if that is the error. -/
def EncodingError.narrowed? : EncodingError → Option String
  | narrowing name => some name
  | _ => none

theorem EncodingError.narrowed?_eq_some {e : EncodingError} {name : String} :
    e.narrowed? = some name ↔ e = .narrowing name := by
  cases e <;> simp [narrowed?]

/-- A result is not the error of a narrowing. -/
def Unnarrowed {α : Type} (r : Except EncodingError α) : Prop :=
  ∀ name, r ≠ .error (.narrowing name)

section

variable {α β : Type} {x : Except EncodingError α} {f : α → Except EncodingError β}

theorem unnarrowed_ok (a : α) : Unnarrowed (.ok a) := fun name h => by cases h

theorem unnarrowed_error {e : EncodingError} (h : e.narrowed? = none) :
    Unnarrowed (.error e : Except EncodingError α) := fun name he => by
  rw [Except.error.inj he, EncodingError.narrowed?] at h
  cases h

theorem Unnarrowed.bind (hx : Unnarrowed x) (hf : ∀ a, Unnarrowed (f a)) :
    Unnarrowed (x >>= f) := fun name h => by
  obtain h | ⟨a, -, h⟩ := Attempt.bind_error.1 h
  · exact hx name h
  · exact hf a name h

theorem Unnarrowed.map (hx : Unnarrowed x) (g : α → β) : Unnarrowed (x.map g) := by
  cases x with
  | ok a => exact unnarrowed_ok _
  | error e => exact fun name h => hx name (congrArg Except.error (Except.error.inj h))

/-- Where the first part does not narrow, the second one does. -/
theorem Unnarrowed.of_bind (hx : Unnarrowed x) {name : String}
    (h : (x >>= f) = .error (.narrowing name)) :
    ∃ a, x = .ok a ∧ f a = .error (.narrowing name) :=
  (Attempt.bind_error.1 h).resolve_left (hx name)

theorem unnarrowed_checked (r : Except SortMismatch Term) : Unnarrowed (checked r) := by
  cases r with
  | ok t => exact unnarrowed_ok t
  | error e => exact unnarrowed_error rfl

end

/-! ### Operations -/

theorem unnarrowed_tagOfSort (tag : String) (s : TermSort) : Unnarrowed (tagOfSort tag s) := by
  unfold tagOfSort tagTerm
  split
  · split
    · exact unnarrowed_ok _
    · exact unnarrowed_error rfl
  · exact unnarrowed_error rfl

theorem unnarrowed_toTerm (o : Operand) : Unnarrowed o.toTerm := by
  cases o with
  | term t => exact unnarrowed_ok t
  | tag | opaqueText => exact unnarrowed_error rfl

theorem unnarrowed_widen (l r : Term) : Unnarrowed (l.widen r) := by
  unfold Term.widen
  split
  · exact (unnarrowed_checked _).map _
  · exact (unnarrowed_checked _).map _
  · exact unnarrowed_ok _

theorem unnarrowed_unify (o o' : Operand) : Unnarrowed (o.unify o') := by
  unfold Operand.unify
  split
  · exact unnarrowed_widen _ _
  · exact (unnarrowed_tagOfSort _ _).map _
  · exact (unnarrowed_tagOfSort _ _).map _
  all_goals exact unnarrowed_error rfl

theorem unnarrowed_unary (op : UnaryOp) (t : Term) : Unnarrowed (encodeUnary op t) := by
  cases op with
  | identity => exact unnarrowed_ok _
  | neg =>
    simp only [encodeUnary]
    split
    · exact unnarrowed_checked _
    · exact unnarrowed_error rfl
  | not =>
    simp only [encodeUnary]
    split
    · exact unnarrowed_checked _
    · exact (unnarrowed_checked _).bind fun _ => unnarrowed_checked _
    · exact unnarrowed_error rfl

theorem unnarrowed_arith (op : Operator) (l r : Term) : Unnarrowed (encodeArith op l r) :=
  (unnarrowed_widen l r).bind fun _ => unnarrowed_checked _

theorem unnarrowed_binary (op : BinaryOp) (l r : Term) : Unnarrowed (encodeBinary op l r) := by
  cases op with
  | add | sub | mul | pow => exact unnarrowed_arith _ l r
  | mod => exact unnarrowed_checked _
  | shl | shr => exact unnarrowed_error rfl
  | div =>
    simp only [encodeBinary]
    split
    · exact unnarrowed_checked _
    · exact unnarrowed_arith _ l r
  | bitAnd | bitOr | bitXor =>
    simp only [encodeBinary]
    split
    · exact unnarrowed_checked _
    · exact unnarrowed_error rfl

theorem unnarrowed_compare (op : CmpOp) (o o' : Operand) : Unnarrowed (encodeCompare op o o') :=
  (unnarrowed_unify o o').bind fun _ => unnarrowed_checked _

theorem unnarrowed_pairs : ∀ (ops : List CmpOp) (o : Operand) (os : List Operand),
    Unnarrowed (encodePairs ops o os)
  | [], _, _ => unnarrowed_ok _
  | _ :: _, _, [] => unnarrowed_ok _
  | op :: ops, o, o' :: os => (unnarrowed_compare op o o').bind fun _ =>
    (unnarrowed_pairs ops o' os).bind fun _ => unnarrowed_ok _

namespace Context

theorem unnarrowed_literal (hint : Option TermSort) (value : Literal) :
    Unnarrowed (literal hint value) := by
  cases value with
  | int | real | bool => exact unnarrowed_ok _
  | text tag =>
    simp only [literal]
    split
    · next e => exact (unnarrowed_tagOfSort tag (.enum e)).map _
    · exact unnarrowed_ok _

theorem unnarrowed_junction (op : BoolOp) (ts : List Term) : Unnarrowed (junction op ts) := by
  cases op <;> exact unnarrowed_checked _

theorem unnarrowed_chosen (cond : Term) (yes no : Operand) : Unnarrowed (chosen cond yes no) :=
  (unnarrowed_unify yes no).bind fun _ => unnarrowed_checked _

theorem unnarrowed_compared (ops : List CmpOp) (o : Operand) (os : List Operand) :
    Unnarrowed (compared ops o os) :=
  (unnarrowed_pairs ops o os).bind fun _ => unnarrowed_checked _

/-! ### Expressions -/

section

variable {leaf : Node → Except EncodingError Term}

mutual

/-- No expression narrows, if no name in it does. -/
theorem unnarrowed_plain (hleaf : ∀ n, Unnarrowed (leaf n)) :
    (n : Node) → ∀ hint : Option TermSort, Unnarrowed (plain leaf hint n)
  | .literal value, hint => unnarrowed_literal hint value
  | .name _, _ => (hleaf _).map _
  | .access _, _ => (hleaf _).map _
  | .unary .identity operand, hint => unnarrowed_plain hleaf operand hint
  | .unary .neg operand, _ => (unnarrowed_plain hleaf operand none).bind fun _ =>
    (unnarrowed_toTerm _).bind fun _ => (unnarrowed_unary _ _).map _
  | .unary .not operand, _ => (unnarrowed_plain hleaf operand none).bind fun _ =>
    (unnarrowed_toTerm _).bind fun _ => (unnarrowed_unary _ _).map _
  | .binary _ left right, _ => (unnarrowed_plain hleaf left none).bind fun _ =>
    (unnarrowed_toTerm _).bind fun _ => (unnarrowed_plain hleaf right none).bind fun _ =>
      (unnarrowed_toTerm _).bind fun _ => (unnarrowed_binary _ _ _).map _
  | .logical op values, _ =>
    (unnarrowed_plainTruths hleaf values).bind fun _ => (unnarrowed_junction op _).map _
  | .compare left ops others, _ => (unnarrowed_plain hleaf left none).bind fun _ =>
    (unnarrowed_plainAll hleaf others).bind fun _ => (unnarrowed_compared ops _ _).map _
  | .choice test body orelse, hint => (unnarrowed_plain hleaf test (some .bool)).bind fun _ =>
    (unnarrowed_toTerm _).bind fun _ => (unnarrowed_plain hleaf body hint).bind fun _ =>
      (unnarrowed_plain hleaf orelse hint).bind fun _ => (unnarrowed_chosen _ _ _).map _
  | .unsupported _, _ => unnarrowed_ok _
  | .assign .., _ => unnarrowed_error rfl
  | .augment .., _ => unnarrowed_error rfl
  | .branch .., _ => unnarrowed_error rfl
  | .ret _, _ => unnarrowed_error rfl
  | .block _, _ => unnarrowed_error rfl

theorem unnarrowed_plainAll (hleaf : ∀ n, Unnarrowed (leaf n)) :
    (ns : List Node) → Unnarrowed (plainAll leaf ns)
  | [] => unnarrowed_ok _
  | n :: ns => (unnarrowed_plain hleaf n none).bind fun _ =>
    (unnarrowed_plainAll hleaf ns).bind fun _ => unnarrowed_ok _

theorem unnarrowed_plainTruths (hleaf : ∀ n, Unnarrowed (leaf n)) :
    (ns : List Node) → Unnarrowed (plainTruths leaf ns)
  | [] => unnarrowed_ok _
  | n :: ns => (unnarrowed_plain hleaf n (some .bool)).bind fun _ =>
    (unnarrowed_toTerm _).bind fun _ => (unnarrowed_plainTruths hleaf ns).bind fun _ =>
      unnarrowed_ok _

end

theorem unnarrowed_plainTerm (hleaf : ∀ n, Unnarrowed (leaf n)) (hint : Option TermSort)
    (n : Node) : Unnarrowed (plainTerm leaf hint n) :=
  (unnarrowed_plain hleaf n hint).bind fun _ => unnarrowed_toTerm _

end

/-! ### Names -/

section

variable (c : Context) (entry : Entry) (count : VarKey → Nat)

theorem unnarrowed_portTerm (m : Model) (q : PortId) (v : Version) :
    Unnarrowed (SymbolTable.portTerm m q v) := by
  unfold SymbolTable.portTerm SymbolTable.priorTerm
  split
  · simp only
    split
    · exact unnarrowed_ok _
    · exact unnarrowed_error rfl
  · exact unnarrowed_ok _

theorem unnarrowed_handle (key : VarKey) (v : Version) : Unnarrowed (c.handle key v) := by
  cases key with
  | port q => exact unnarrowed_portTerm c.model q v
  | «local» name => exact unnarrowed_ok _

theorem unnarrowed_keyed (n : Node) : Unnarrowed (c.keyed n) := by
  unfold keyed
  split
  · exact unnarrowed_ok _
  · exact unnarrowed_error rfl

theorem unnarrowed_held (n : Node) : Unnarrowed ((c.asEncoded entry count).held n) :=
  (c.unnarrowed_keyed n).bind fun _ => c.unnarrowed_handle _ _

theorem unnarrowed_leaf (n : Node) : Unnarrowed ((c.asEncoded entry count).leaf n) := by
  simp only [asEncoded]
  split
  · exact unnarrowed_ok _
  · exact c.unnarrowed_held entry count n

theorem unnarrowed_made (n : Node) : Unnarrowed ((c.asEncoded entry count).made n) :=
  (c.unnarrowed_keyed n).bind fun _ => (c.unnarrowed_handle _ _).bind fun _ => unnarrowed_ok _

theorem unnarrowed_madeAll : ∀ targets : List Node,
    Unnarrowed (madeAll (c.asEncoded entry count) targets)
  | [] => unnarrowed_ok _
  | target :: targets => (c.unnarrowed_made entry count target).bind fun _ =>
    (unnarrowed_madeAll targets).bind fun _ => unnarrowed_ok _

theorem unnarrowed_closing (current latest : Term) : Unnarrowed (closing current latest) := by
  unfold closing
  split
  · exact unnarrowed_ok _
  · exact (unnarrowed_checked _).map _

theorem unnarrowed_forked (cond : Term) (yes no : List Term) : Unnarrowed (forked cond yes no) :=
  (unnarrowed_checked _).bind fun _ => (unnarrowed_checked _).bind fun _ => unnarrowed_checked _

theorem unnarrowed_plainClosing : ∀ ports : List PortId,
    Unnarrowed (plainClosing c (c.asEncoded entry count) ports)
  | [] => unnarrowed_ok _
  | q :: ports => by
    have hlatest : Unnarrowed ((c.asEncoded entry count).latest q) :=
      c.unnarrowed_handle (.port q) _
    exact (unnarrowed_portTerm c.model q .current).bind fun _ => hlatest.bind fun _ =>
      (unnarrowed_closing _ _).bind fun _ => (unnarrowed_plainClosing ports).bind fun _ =>
        unnarrowed_ok _

end

end Context

end HybridStep
