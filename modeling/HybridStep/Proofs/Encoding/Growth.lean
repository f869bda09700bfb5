import HybridStep.Proofs.Encoding.Handles

/-! # What the encoding of a body adds

Encoding a body adds handles of ports and of the locals of its own modifier, with the sorts that the
context gives them, and notes texts that are passed through. It takes nothing away, and it does not
touch the ports that are noted as written. Every part of the encoder has this property, and it is
passed on by the ways in which parts are put together. -/

namespace HybridStep.Context

open Encoder (lift onTable pass)

variable {α β : Type} {c : Context}

/-- The handles that the encoding of a body makes. -/
def Makes (c : Context) : SymbolKey → Version → Term → Prop
  | .step, _, _ => False
  | .port p, v, term => SymbolTable.portTerm c.model p v = .ok term
  | .local name owner, v, term =>
    owner = c.modifier ∧ term = .var ⟨symbolName name v owner.text, c.sortOfLocal name⟩

/-- What the encoding of a body has made in addition. -/
structure Grew (c : Context) (p p' : Progress) : Prop where
  table : SymbolTable.GrowsBy c.Makes p.table p'.table
  passed {text : String} : text ∈ p.passed → text ∈ p'.passed

/-- An encoding that only adds. -/
def Adds (c : Context) (x : Encoder α) : Prop := ∀ ⦃p a p'⦄, x p = .ok a p' → c.Grew p p'

theorem Grew.rfl {p : Progress} : c.Grew p p := ⟨.rfl, fun h => h⟩

theorem Grew.trans {p p' p'' : Progress} (h : c.Grew p p') (h' : c.Grew p' p'') : c.Grew p p'' :=
  ⟨h.table.trans h'.table, fun ht => h'.passed (h.passed ht)⟩

theorem Grew.nothing_passed {p p' : Progress} (h : c.Grew p p') (hp : p'.passed.toList = []) :
    p.passed.toList = [] := by
  refine List.eq_nil_iff_forall_not_mem.2 fun text ht => ?_
  have hm : text ∈ p'.passed.toList := h.passed ht
  rw [hp] at hm
  cases hm

theorem Adds.pure (a : α) : c.Adds (pure a : Encoder α) := by
  intro p b p' h
  obtain ⟨-, rfl⟩ := Stateful.pure_ok.1 h
  exact .rfl

theorem Adds.throw (e : EncodingError) : c.Adds (throw e : Encoder α) :=
  fun _ _ _ h => (Stateful.throw_ok h).elim

theorem Adds.lift (x : Except EncodingError α) : c.Adds (lift x) := by
  intro p b p' h
  obtain ⟨-, rfl⟩ := Encoder.lift_ok.1 h
  exact .rfl

theorem Adds.bind {x : Encoder α} {f : α → Encoder β} (hx : c.Adds x) (hf : ∀ a, c.Adds (f a)) :
    c.Adds (x >>= f) := by
  intro p b p' h
  obtain ⟨a, q, ha, hb⟩ := Stateful.bind_ok.1 h
  exact (hx ha).trans (hf a hb)

theorem Adds.map {x : Encoder α} (f : α → β) (hx : c.Adds x) : c.Adds (f <$> x) := by
  intro p b p' h
  obtain ⟨a, ha, -⟩ := Stateful.map_ok.1 h
  exact hx ha

theorem Adds.onTable {f : SymbolTable → Except EncodingError (α × SymbolTable)}
    (hf : ∀ {t a t'}, f t = .ok (a, t') → SymbolTable.GrowsBy c.Makes t t') :
    c.Adds (onTable f) := by
  intro p b p' h
  obtain ⟨t, ht, rfl⟩ := Encoder.onTable_ok.1 h
  exact ⟨hf ht, fun h => h⟩

theorem Adds.pass (text : String) : c.Adds (pass text) := by
  intro p b p' h
  obtain rfl := Encoder.pass_ok.1 h
  exact ⟨.rfl, fun h => OrderedSet.mem_insert.2 (.inl h)⟩

theorem makes_of_portHandle {key : SymbolKey} {v : Version} {term : Term}
    (h : SymbolTable.PortHandle c.model key v term) : c.Makes key v term := by
  cases key with
  | port p => exact h
  | step | «local» => exact h.elim

theorem Adds.port (p : PortId) (v : Version) :
    c.Adds (Encoder.onTable (·.port c.model p v)) :=
  .onTable fun h => (SymbolTable.port_ok h).1.mono fun _ _ _ => makes_of_portHandle

theorem Adds.entryValue (p : PortId) : c.Adds (Encoder.onTable (·.entryValue c.model p)) :=
  .onTable fun h => (SymbolTable.entryValue_ok h).1.mono fun _ _ _ => makes_of_portHandle

theorem adds_localHandle (name : String) (v : Version) : c.Adds (c.localHandle name v) := by
  refine .onTable fun h => (SymbolTable.ofLocal_ok (Except.ok.inj h)).1.mono ?_
  rintro key v term ⟨rfl, rfl⟩
  exact ⟨rfl, rfl⟩

/-! ### Expressions -/

theorem adds_readKey (s : Scope) (key : VarKey) : c.Adds (c.readKey s key) := by
  unfold readKey
  generalize s.read key = r
  cases key with
  | port p =>
    cases r with
    | index k => exact .port _ _
    | entry | current => exact .entryValue _
  | «local» name => cases r <;> exact adds_localHandle _ _

theorem adds_writeKey (s : Scope) (key : VarKey) : c.Adds (c.writeKey s key) := by
  cases key with
  | port p => exact .port _ _
  | «local» name => exact adds_localHandle _ _

theorem adds_keyOf (n : Node) : c.Adds (c.keyOf n) := by
  unfold keyOf
  split
  · exact .pure _
  · exact .throw _

theorem adds_readNode (s : Scope) (n : Node) : c.Adds (c.readNode s n) :=
  .bind (adds_keyOf n) fun key => adds_readKey s key

theorem adds_readName (s : Scope) (name : String) : c.Adds (c.readName s name) := by
  unfold readName
  split
  · intro p a p' h
    obtain ⟨b, q, hg, h⟩ := Stateful.bind_ok.1 h
    obtain ⟨-, rfl⟩ := Stateful.get_ok.1 hg
    exact Adds.pure _ h
  · exact adds_readNode s _

mutual

theorem adds_expr (s : Scope) : (n : Node) → (hint : Option TermSort) → c.Adds (c.expr s hint n)
  | .literal _, _ => .lift _
  | .name n, _ => .map _ (adds_readName s n)
  | .access _, _ => .map _ (adds_readNode s _)
  | .unary .identity operand, hint => adds_expr s operand hint
  | .unary .not operand, _ =>
    .bind (adds_expr s operand none) fun _ => .bind (.lift _) fun _ => .map _ (.lift _)
  | .unary .neg operand, _ =>
    .bind (adds_expr s operand none) fun _ => .bind (.lift _) fun _ => .map _ (.lift _)
  | .binary _ left right, _ =>
    .bind (adds_expr s left none) fun _ => .bind (.lift _) fun _ =>
      .bind (adds_expr s right none) fun _ => .bind (.lift _) fun _ => .map _ (.lift _)
  | .logical _ values, _ => .bind (adds_truths s values) fun _ => .map _ (.lift _)
  | .compare left _ others, _ =>
    .bind (adds_expr s left none) fun _ => .bind (adds_exprs s others) fun _ => .map _ (.lift _)
  | .choice test body orelse, hint =>
    .bind (adds_expr s test (some .bool)) fun _ => .bind (.lift _) fun _ =>
      .bind (adds_expr s body hint) fun _ => .bind (adds_expr s orelse hint) fun _ =>
        .map _ (.lift _)
  | .unsupported _, _ => .bind (.pass _) fun _ => .pure _
  | .assign .., _ => .throw _
  | .augment .., _ => .throw _
  | .branch .., _ => .throw _
  | .ret _, _ => .throw _
  | .block _, _ => .throw _

theorem adds_exprs (s : Scope) : (ns : List Node) → c.Adds (c.exprs s ns)
  | [] => .pure _
  | n :: ns => .bind (adds_expr s n none) fun _ => .bind (adds_exprs s ns) fun _ => .pure _

theorem adds_truths (s : Scope) : (ns : List Node) → c.Adds (c.truths s ns)
  | [] => .pure _
  | n :: ns =>
    .bind (adds_expr s n (some .bool)) fun _ => .bind (.lift _) fun _ =>
      .bind (adds_truths s ns) fun _ => .pure _

end

theorem adds_term (s : Scope) (hint : Option TermSort) (n : Node) : c.Adds (c.term s hint n) :=
  .bind (adds_expr s n hint) fun _ => .lift _

/-! ### Statements and paths -/

theorem adds_targetHandles (s : Scope) : (targets : List Node) → c.Adds (c.targetHandles s targets)
  | [] => .pure _
  | n :: ns =>
    .bind (adds_keyOf n) fun key => .bind (adds_writeKey s key) fun _ =>
      .bind (adds_targetHandles s ns) fun _ => .pure _

theorem adds_statement (s : Scope) (n : Node) : c.Adds (c.statement s n) := by
  cases n <;> try exact .throw _
  case assign targets value =>
    refine .bind (adds_targetHandles s targets) fun handles => ?_
    refine .bind (adds_expr s value _) fun o => ?_
    cases o with
    | opaqueText => exact .pure _
    | term | tag => exact .lift _
  case augment target op value =>
    exact .bind (adds_keyOf target) fun key => .bind (adds_readKey s key) fun _ =>
      .bind (adds_term s none value) fun _ => .bind (.lift _) fun _ =>
        .bind (adds_writeKey s key) fun _ => .bind (.lift _) fun _ => .pure _
  case unsupported text => exact .bind (.pass _) fun _ => .pure _

theorem adds_closePorts (s : Scope) : (ps : List PortId) → c.Adds (c.closePorts s ps)
  | [] => .pure _
  | p :: ps =>
    .bind (.port p .current) fun _ => .bind (adds_readKey s (.port p)) fun _ =>
      .bind (.lift _) fun _ => .bind (adds_closePorts s ps) fun _ => .pure _

theorem adds_returned (s : Scope) (value : Option Node) : c.Adds (c.returned s value) := by
  unfold returned
  split
  · exact .throw _
  · exact .throw _
  · next target value _ =>
    refine .bind (.port target .current) fun _ => .bind (adds_expr s value _) fun o => ?_
    cases o with
    | opaqueText => exact .pure _
    | term | tag => exact .bind (.lift _) fun _ => .pure _

theorem adds_paths : (fl : Flow) → (s : Scope) → c.Adds (c.paths fl s)
  | .done, s => adds_closePorts s _
  | .step statement rest, s =>
    .bind (adds_statement s statement) fun _ => .bind (adds_paths rest _) fun _ => .pure _
  | .ret value, s =>
    .bind (adds_closePorts s _) fun _ => .bind (adds_returned s value) fun _ => .pure _
  | .fork test whole yes no, s => by
    unfold paths
    refine .bind (adds_term s _ test) fun _ => ?_
    have hrest : ∀ cond : Term, c.Adds (do
        let yes ← c.paths yes (c.scope yes.straight s.versions)
        let no ← c.paths no (c.scope no.straight s.versions)
        let choice ← Encoder.lift (forked cond yes no)
        return [choice]) := fun cond =>
      .bind (adds_paths yes _) fun _ => .bind (adds_paths no _) fun _ =>
        .bind (.lift _) fun _ => .pure _
    split
    · exact .bind (.throw _) fun _ => hrest _
    · exact hrest _

end HybridStep.Context
