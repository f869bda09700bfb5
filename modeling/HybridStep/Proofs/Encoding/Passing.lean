import HybridStep.Proofs.Body.Losses
import HybridStep.Proofs.Encoding.Parts

/-! # Texts that are passed through

Most of an encoding passes nothing through, and an expression that gives a term has nothing to pass
through. So a statement passes through the text that it loses and no other, and a body those that
its paths come to, each of them once. -/

namespace HybridStep

/-- The text that was passed through in place of a term. -/
def Operand.text? : Operand → Option String
  | opaqueText text => some text
  | term _ | tag _ => none

open Node (FormedList FormedElse FormedValue)

namespace Encoder

variable {α β : Type} {x : Encoder α} {f : α → Encoder β} {text? : Option String}

/-! ### Encodings that pass nothing through -/

/-- An encoding passes nothing through where it succeeds. -/
def Quiet (x : Encoder α) : Prop := ∀ ⦃p a p'⦄, x p = .ok a p' → p'.passed = p.passed

theorem Quiet.pure (a : α) : Quiet (pure a : Encoder α) := fun p b p' h => by
  rw [← (Stateful.pure_ok.1 h).2]

theorem Quiet.throw (e : EncodingError) : Quiet (throw e : Encoder α) :=
  fun _ _ _ h => (Stateful.throw_ok h).elim

theorem Quiet.lift (r : Except EncodingError α) : Quiet (Encoder.lift r) := by
  cases r with
  | ok a => exact .pure a
  | error e => exact .throw e

theorem Quiet.onTable (f : SymbolTable → Except EncodingError (α × SymbolTable)) :
    Quiet (Encoder.onTable f) := fun p a p' h => by
  obtain ⟨t, -, rfl⟩ := onTable_ok.1 h
  rfl

theorem Quiet.get : Quiet (get : Encoder Progress) := fun p a p' h => by
  rw [(Stateful.get_ok.1 h).2]

theorem Quiet.bind (hx : Quiet x) (hf : ∀ a, Quiet (f a)) : Quiet (x >>= f) := fun p b p' h => by
  obtain ⟨a, q, ha, hb⟩ := Stateful.bind_ok.1 h
  rw [hf a hb, hx ha]

/-! ### Encodings of expressions -/

/-- An encoding passes a text through in place of a term, or nothing. -/
def Carries (x : Encoder Operand) (text? : Option String) : Prop :=
  ∀ ⦃p o p'⦄, x p = .ok o p' → o.text? = text? ∧ p'.passed = p.passed.insertAll text?.toList

theorem Quiet.carries {x : Encoder Term} (hx : Quiet x) : Carries (Operand.term <$> x) none :=
  fun p o p' h => by
    obtain ⟨t, ht, rfl⟩ := Stateful.map_ok.1 h
    exact ⟨rfl, hx ht⟩

theorem Carries.throw (e : EncodingError) : Carries (throw e) text? :=
  fun _ _ _ h => (Stateful.throw_ok h).elim

end Encoder

theorem Operand.text?_of_toTerm {o : Operand} {t : Term} (h : o.toTerm = .ok t) :
    o.text? = none := by
  cases o with
  | opaqueText text => cases h
  | term | tag => rfl

theorem Operand.text?_of_unify {l r : Operand} {ts : Term × Term} (h : l.unify r = .ok ts) :
    l.text? = none ∧ r.text? = none := by
  cases l <;> cases r <;> first | exact ⟨rfl, rfl⟩ | cases h

namespace Encoder

variable {β : Type} {x : Encoder Operand} {text? : Option String}

/-- What goes on with a term has nothing passed through. -/
theorem Carries.term_bind {f : Term → Encoder β} (hx : Carries x text?) (hf : ∀ t, Quiet (f t)) :
    Quiet (x >>= fun o => lift o.toTerm >>= f) := fun p b p' h => by
  obtain ⟨o, q, ho, h⟩ := Stateful.bind_ok.1 h
  obtain ⟨t, q', hlift, h⟩ := Stateful.bind_ok.1 h
  obtain ⟨ht, rfl⟩ := lift_ok.1 hlift
  obtain ⟨htext, hpassed⟩ := hx ho
  rw [Operand.text?_of_toTerm ht] at htext
  rw [hf t h, hpassed, ← htext]
  rfl

theorem Carries.term (hx : Carries x text?) : Quiet (do lift (← x).toTerm) := by
  have h := hx.term_bind fun t => Quiet.pure t
  simpa using h

end Encoder

open Encoder (Quiet Carries)

namespace Context

variable {c : Context}

theorem encodePairs_texts : ∀ {ops : List CmpOp} {left : Operand} {others : List Operand}
    {ts : List Term}, ops ≠ [] → ops.length = others.length → encodePairs ops left others = .ok ts →
      left.text? = none ∧ ∀ o ∈ others, o.text? = none
  | [], _, _, _, h, _, _ => absurd rfl h
  | _ :: _, _, [], _, _, h, _ => by simp at h
  | op :: ops, left, right :: rest, ts, _, hlength, h => by
    obtain ⟨pair, hpair, h⟩ := Attempt.bind_ok.1 h
    obtain ⟨pairs, hpairs, -⟩ := Attempt.bind_ok.1 h
    obtain ⟨⟨l, r⟩, hunify, -⟩ := Attempt.bind_ok.1 hpair
    obtain ⟨hleft, hright⟩ := Operand.text?_of_unify hunify
    refine ⟨hleft, List.forall_mem_cons.2 ⟨hright, ?_⟩⟩
    cases ops with
    | nil =>
      obtain rfl : rest = [] := by simpa using hlength.symm
      exact fun o ho => nomatch ho
    | cons op' ops =>
      exact (encodePairs_texts (by simp) (by simpa using hlength) hpairs).2

theorem quiet_readKey (s : Scope) (key : VarKey) : Quiet (c.readKey s key) := by
  unfold readKey
  split <;> exact .onTable _

theorem quiet_writeKey (s : Scope) (key : VarKey) : Quiet (c.writeKey s key) := by
  unfold writeKey
  split <;> exact .onTable _

theorem quiet_keyOf (n : Node) : Quiet (c.keyOf n) := by
  unfold keyOf
  split
  · exact .pure _
  · exact .throw _

theorem quiet_readNode (s : Scope) (n : Node) : Quiet (c.readNode s n) :=
  (quiet_keyOf n).bind (quiet_readKey s)

theorem quiet_readName (s : Scope) (name : String) : Quiet (c.readName s name) := by
  unfold readName
  split
  · exact Quiet.get.bind fun _ => .pure _
  · exact quiet_readNode s _

theorem carries_literal (hint : Option TermSort) (value : Literal) :
    Carries (Encoder.lift (literal hint value)) none := fun p o p' h => by
  obtain ⟨ho, rfl⟩ := Encoder.lift_ok.1 h
  refine ⟨?_, rfl⟩
  unfold literal at ho
  split at ho
  · cases ho
    rfl
  · cases ho
    rfl
  · cases ho
    rfl
  · split at ho
    · obtain ⟨t, -, rfl⟩ := Attempt.map_ok.1 ho
      rfl
    · cases ho
      rfl

mutual

/-- **An expression passes through the text that it is as a whole**, and nothing else. -/
theorem carries_expr (s : Scope) : (n : Node) → (hint : Option TermSort) → n.Formed →
    Carries (c.expr s hint n) n.wholeText?
  | .literal value, hint, _ => carries_literal hint value
  | .name n, _, _ => (quiet_readName s n).carries
  | .access segments, _, _ => (quiet_readNode s _).carries
  | .unary .identity operand, hint, h => carries_expr s operand hint h
  | .unary .not operand, _, h => by
    have hoperand := (carries_expr s operand none h).term_bind
      fun t => Quiet.lift (encodeUnary .not t)
    simpa only [expr, Node.wholeText?, map_bind] using hoperand.carries
  | .unary .neg operand, _, h => by
    have hoperand := (carries_expr s operand none h).term_bind
      fun t => Quiet.lift (encodeUnary .neg t)
    simpa only [expr, Node.wholeText?, map_bind] using hoperand.carries
  | .binary op left right, _, h => by
    have hoperands := (carries_expr s left none h.1).term_bind fun l =>
      (carries_expr s right none h.2).term_bind fun r => Quiet.lift (encodeBinary op l r)
    simpa only [expr, Node.wholeText?, map_bind] using hoperands.carries
  | .logical op values, _, h => by
    have hvalues := (quiet_truths s values h).bind fun ts => Quiet.lift (junction op ts)
    simpa only [expr, Node.wholeText?, map_bind] using hvalues.carries
  | .compare left ops others, _, h => fun p o p' hx => by
    obtain ⟨⟨hops, hlength⟩, hleft, hothers⟩ := h
    obtain ⟨l, p₁, hl, hx⟩ := Stateful.bind_ok.1 hx
    obtain ⟨os, p₂, hos, hx⟩ := Stateful.bind_ok.1 hx
    obtain ⟨t, ht, rfl⟩ := Stateful.map_ok.1 hx
    obtain ⟨hcompared, rfl⟩ := Encoder.lift_ok.1 ht
    obtain ⟨htext, hpassed⟩ := carries_expr s left none hleft hl
    obtain ⟨htexts, hpassed'⟩ := exprs_texts s others hothers hos
    have hcount : os.length = others.length := by simpa using congrArg List.length htexts
    obtain ⟨pairs, hpairs, -⟩ := Attempt.bind_ok.1 hcompared
    obtain ⟨hnone, hnones⟩ := encodePairs_texts hops (hlength.trans hcount.symm) hpairs
    have hall : others.filterMap Node.wholeText? = [] := List.filterMap_eq_nil_iff.2 fun n hn => by
      have hmem : n.wholeText? ∈ os.map Operand.text? := htexts ▸ List.mem_map_of_mem hn
      obtain ⟨o, ho, heq⟩ := List.mem_map.1 hmem
      rw [← heq, hnones o ho]
    rw [hnone] at htext
    rw [hall] at hpassed'
    rw [← htext] at hpassed
    exact ⟨rfl, by rw [hpassed', hpassed]; rfl⟩
  | .choice test body orelse, hint, h => by
    obtain ⟨htest, hbody, horelse⟩ := h
    have harms : ∀ cond, Quiet (do
        let yes ← c.expr s hint body
        let no ← c.expr s hint orelse
        Encoder.lift (chosen cond yes no)) := fun cond p t p' hx => by
      obtain ⟨yes, p₁, hyes, hx⟩ := Stateful.bind_ok.1 hx
      obtain ⟨no, p₂, hno, hx⟩ := Stateful.bind_ok.1 hx
      obtain ⟨hchosen, rfl⟩ := Encoder.lift_ok.1 hx
      obtain ⟨ts, hunify, -⟩ := Attempt.bind_ok.1 hchosen
      obtain ⟨hyesNone, hnoNone⟩ := Operand.text?_of_unify hunify
      obtain ⟨htext, hpassed⟩ := carries_expr s body hint hbody hyes
      obtain ⟨htext', hpassed'⟩ := carries_expr s orelse hint horelse hno
      rw [hpassed', hpassed, ← htext', ← htext, hyesNone, hnoNone]
      rfl
    have hchoice := (carries_expr s test (some .bool) htest).term_bind harms
    simpa only [expr, Node.wholeText?, map_bind] using hchoice.carries
  | .unsupported text, _, _ => fun p o p' hx => by
    obtain ⟨u, q, hpass, hx⟩ := Stateful.bind_ok.1 hx
    obtain ⟨rfl, rfl⟩ := Stateful.pure_ok.1 hx
    exact ⟨rfl, by rw [Encoder.pass_ok.1 hpass]; rfl⟩
  | .assign .., _, _ => .throw _
  | .augment .., _, _ => .throw _
  | .branch .., _, _ => .throw _
  | .ret _, _, _ => .throw _
  | .block _, _, _ => .throw _

theorem exprs_texts (s : Scope) : (ns : List Node) → FormedList ns → ∀ {p os p'},
    c.exprs s ns p = .ok os p' → os.map Operand.text? = ns.map Node.wholeText? ∧
      p'.passed = p.passed.insertAll (ns.filterMap Node.wholeText?)
  | [], _, p, os, p', h => by
    obtain ⟨rfl, rfl⟩ := Stateful.pure_ok.1 h
    exact ⟨rfl, rfl⟩
  | n :: ns, hn, p, os, p', h => by
    obtain ⟨o, p₁, ho, h⟩ := Stateful.bind_ok.1 h
    obtain ⟨others, p₂, hothers, h⟩ := Stateful.bind_ok.1 h
    obtain ⟨rfl, rfl⟩ := Stateful.pure_ok.1 h
    obtain ⟨htext, hpassed⟩ := carries_expr s n none hn.1 ho
    obtain ⟨htexts, hpassed'⟩ := exprs_texts s ns hn.2 hothers
    refine ⟨by rw [List.map_cons, List.map_cons, htext, htexts], ?_⟩
    rw [hpassed', hpassed, List.filterMap_cons]
    cases n.wholeText? <;> rfl

theorem quiet_truths (s : Scope) : (ns : List Node) → FormedList ns → Quiet (c.truths s ns)
  | [], _ => .pure _
  | n :: ns, h => (carries_expr s n (some .bool) h.1).term_bind fun _ =>
    (quiet_truths s ns h.2).bind fun _ => .pure _

end

/-! ### Statements -/

theorem quiet_targetHandles (s : Scope) (targets : List Node) :
    Quiet (c.targetHandles s targets) := by
  induction targets with
  | nil => exact .pure _
  | cons target targets ih =>
    exact (quiet_keyOf target).bind fun key => (quiet_writeKey s key).bind fun _ =>
      ih.bind fun _ => .pure _

/-- **A statement passes through the text that it loses.** -/
theorem statement_passed (s : Scope) {n : Node} (hn : n.Formed) {p p' : Progress} {ts : List Term}
    (h : c.statement s n p = .ok ts p') :
    p'.passed = p.passed.insertAll n.lostText?.toList := by
  cases n <;> try exact (Stateful.throw_ok h).elim
  case assign targets value =>
    obtain ⟨handles, q, o, hhandles, ho, -⟩ := assign_ok h
    rw [← quiet_targetHandles s targets hhandles]
    exact (carries_expr s value _ hn.2 ho).2
  case augment target op value =>
    obtain ⟨key, _, _, _, _, _, _, _, -, hcurrent, hoperand, -, hhandle, -, -⟩ := augment_ok h
    have hterm : Quiet (c.term s none value) := (carries_expr s value none hn.2).term
    rw [quiet_writeKey s key hhandle, hterm hoperand, quiet_readKey s key hcurrent]
    rfl
  case unsupported text =>
    obtain ⟨-, rfl⟩ := unsupported_ok h
    rfl

/-! ### Paths -/

theorem quiet_closePorts (s : Scope) : (ports : List PortId) → Quiet (c.closePorts s ports)
  | [] => .pure _
  | _ :: ports => (Quiet.onTable _).bind fun _ => (quiet_readKey s _).bind fun _ =>
    (Quiet.lift _).bind fun _ => (quiet_closePorts s ports).bind fun _ => .pure _

theorem returned_passed (s : Scope) {value : Option Node} (hvalue : FormedValue value)
    {p p' : Progress} {ts : List Term} (h : c.returned s value p = .ok ts p') :
    p'.passed = p.passed.insertAll (Node.ret value).lostText?.toList := by
  obtain ⟨_, n, _, _, _, -, rfl, hhandle, ho, -⟩ := returned_ok h
  rw [← Quiet.onTable _ hhandle]
  exact (carries_expr s n _ hvalue ho).2

/-- **The encoding of a flow passes through what its statements lose**, in their order. -/
theorem paths_passed : (fl : Flow) → fl.Formed → ∀ {s : Scope} {p p' : Progress} {ts : List Term},
    c.paths fl s p = .ok ts p' →
      p'.passed = p.passed.insertAll (fl.statements.filterMap Node.lostText?)
  | .done, _, s, p, p', ts, h => quiet_closePorts s _ h
  | .step n rest, hfl, s, p, p', ts, h => by
    obtain ⟨here, p₁, there, hhere, hthere, -⟩ := step_ok h
    rw [paths_passed rest hfl.2 hthere, statement_passed s hfl.1 hhere, Flow.statements,
      List.filterMap_cons]
    cases n.lostText? <;> rfl
  | .ret value, hfl, s, p, p', ts, h => by
    obtain ⟨closed, p₁, written, hclosed, hwritten, -⟩ := ret_ok h
    rw [returned_passed s hfl hwritten, quiet_closePorts s _ hclosed, Flow.statements,
      List.filterMap_cons, List.filterMap_nil]
    cases (Node.ret value).lostText? <;> rfl
  | .fork test whole yes no, hfl, s, p, p', ts, h => by
    obtain ⟨htest, hyes, hno⟩ := hfl
    obtain ⟨cond, p₁, ts₁, p₂, ts₂, t, hcond, hpaths, hpaths', -, -⟩ := fork_ok h
    have hterm : Quiet (c.term s (some .bool) test) := (carries_expr s test (some .bool) htest).term
    rw [paths_passed no hno hpaths', paths_passed yes hyes hpaths, hterm hcond, Flow.statements,
      List.filterMap_append, OrderedSet.insertAll, OrderedSet.insertAll, OrderedSet.insertAll,
      List.foldl_append]

/-- **A body passes through what its paths come to.** From a start where nothing was passed through,
an encoding that succeeds gives each text once that the body loses, and no other. -/
theorem encodeBody_passthrough {body : List Node} (hbody : FormedList body) {p p' : Progress}
    {r : BodyConstraints} (hp : p.passed = .empty) (h : c.encodeBody body p = .ok r p') :
    r.passthrough.Nodup ∧ ∀ text, text ∈ r.passthrough ↔ Node.Loses body text := by
  obtain ⟨q, hsequence, hpass, -⟩ := encodeBody_ok h
  have hpassed := paths_passed (Flow.ofBody body) (Flow.formed_ofBody hbody) hsequence
  rw [hpass]
  refine ⟨q.passed.nodup, fun text => ?_⟩
  rw [← OrderedSet.mem_def, hpassed, hp, OrderedSet.mem_insertAll, Node.Loses, List.mem_filterMap]
  simp only [Flow.mem_statements_ofBody, OrderedSet.not_mem_empty, false_or]

end Context

end HybridStep
