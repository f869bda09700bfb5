import HybridStep.Proofs.Success

/-! # Parts of an encoding

The encoding of a statement, of the end of a path or of a flow succeeds if its parts do, one on the
progress that the other one leaves. What the parts are is said here once for each kind of statement
and of flow, so that what holds of encodings that succeed is proved from their parts. A value that
is passed through makes no constraint. -/

namespace HybridStep.Context

open Encoder (onTable)

variable {c : Context} {s : Scope} {p p' : Progress} {cs : List Term}

/-! ### Statements -/

theorem keyOf_ok {n : Node} {key : VarKey} (h : c.keyOf n p = .ok key p') :
    c.key? n = some key ∧ p = p' := by
  cases hk : c.key? n with
  | some k =>
    simp only [keyOf, hk] at h
    obtain ⟨rfl, rfl⟩ := Stateful.pure_ok.1 h
    exact ⟨rfl, rfl⟩
  | none =>
    simp only [keyOf, hk] at h
    exact (Stateful.throw_ok h).elim

/-- An assignment equates the handles of its targets with its value. -/
theorem assign_ok {targets : List Node} {value : Node}
    (h : c.statement s (.assign targets value) p = .ok cs p') :
    ∃ handles q o, c.targetHandles s targets p = .ok handles q ∧
      c.expr s (handles.head?.map fun h => h.2.sort) value q = .ok o p' ∧
      ((∃ text, o = .opaqueText text) ∧ cs = [] ∨
        (∀ text, o ≠ .opaqueText text) ∧ c.equateAll o handles = .ok cs) := by
  obtain ⟨handles, q, hhandles, h⟩ := Stateful.bind_ok.1 h
  obtain ⟨o, q₁, ho, h⟩ := Stateful.bind_ok.1 h
  refine ⟨handles, q, o, hhandles, ?_⟩
  cases o with
  | opaqueText text =>
    obtain ⟨rfl, rfl⟩ := Stateful.pure_ok.1 h
    exact ⟨ho, .inl ⟨⟨text, rfl⟩, rfl⟩⟩
  | term | tag =>
    obtain ⟨hcs, rfl⟩ := Encoder.lift_ok.1 h
    exact ⟨ho, .inr ⟨fun text => by simp, hcs⟩⟩

/-- An augmented assignment reads its target, then makes a handle for the combined value. -/
theorem augment_ok {target value : Node} {op : BinaryOp}
    (h : c.statement s (.augment target op value) p = .ok cs p') :
    ∃ key current q₁ operand q₂ combined handle equation, c.key? target = some key ∧
      c.readKey s key p = .ok current q₁ ∧ c.term s none value q₁ = .ok operand q₂ ∧
      encodeBinary op current operand = .ok combined ∧ c.writeKey s key q₂ = .ok handle p' ∧
      c.equate handle key (.term combined) = .ok equation ∧ cs = [equation] := by
  obtain ⟨key, q, hkey, h⟩ := Stateful.bind_ok.1 h
  obtain ⟨hk, rfl⟩ := keyOf_ok hkey
  obtain ⟨current, q₁, hcurrent, h⟩ := Stateful.bind_ok.1 h
  obtain ⟨operand, q₂, hoperand, h⟩ := Stateful.bind_ok.1 h
  obtain ⟨combined, q₃, hcombined, h⟩ := Stateful.bind_ok.1 h
  obtain ⟨hbinary, rfl⟩ := Encoder.lift_ok.1 hcombined
  obtain ⟨handle, q₄, hhandle, h⟩ := Stateful.bind_ok.1 h
  obtain ⟨equation, q₅, hequation, h⟩ := Stateful.bind_ok.1 h
  obtain ⟨hequate, rfl⟩ := Encoder.lift_ok.1 hequation
  obtain ⟨rfl, rfl⟩ := Stateful.pure_ok.1 h
  exact ⟨key, current, q₁, operand, q₂, combined, handle, equation, hk, hcurrent, hoperand,
    hbinary, hhandle, hequate, rfl⟩

/-- A statement without a meaning is passed through. -/
theorem unsupported_ok {text : String} (h : c.statement s (.unsupported text) p = .ok cs p') :
    cs = [] ∧ p' = { p with passed := p.passed.insert text } := by
  obtain ⟨_, q, hpass, h⟩ := Stateful.bind_ok.1 h
  obtain ⟨rfl, rfl⟩ := Stateful.pure_ok.1 h
  exact ⟨rfl, Encoder.pass_ok.1 hpass⟩

/-! ### Ends of paths -/

/-- The first of several ports is closed before the others. -/
theorem closePorts_ok {q : PortId} {ports : List PortId}
    (h : c.closePorts s (q :: ports) p = .ok cs p') :
    ∃ current q₁ latest q₂ first others, onTable (·.port c.model q .current) p = .ok current q₁ ∧
      c.readKey s (.port q) q₁ = .ok latest q₂ ∧ closing current latest = .ok first ∧
      c.closePorts s ports q₂ = .ok others p' ∧ cs = first ++ others := by
  obtain ⟨current, q₁, hcurrent, h⟩ := Stateful.bind_ok.1 h
  obtain ⟨latest, q₂, hlatest, h⟩ := Stateful.bind_ok.1 h
  obtain ⟨first, q₃, hfirst, h⟩ := Stateful.bind_ok.1 h
  obtain ⟨hclosing, rfl⟩ := Encoder.lift_ok.1 hfirst
  obtain ⟨others, q₄, hothers, h⟩ := Stateful.bind_ok.1 h
  obtain ⟨rfl, rfl⟩ := Stateful.pure_ok.1 h
  exact ⟨current, q₁, latest, q₂, first, others, hcurrent, hlatest, hclosing, hothers, rfl⟩

/-- A return has a target and a value, and equates the post-step variable of the one with the
other. -/
theorem returned_ok {value : Option Node} (h : c.returned s value p = .ok cs p') :
    ∃ target n handle q o, c.target = some target ∧ value = some n ∧
      onTable (·.port c.model target .current) p = .ok handle q ∧
      c.expr s (some handle.sort) n q = .ok o p' ∧
      ((∃ text, o = .opaqueText text) ∧ cs = [] ∨ (∀ text, o ≠ .opaqueText text) ∧
        ∃ equation, c.equate handle (.port target) o = .ok equation ∧ cs = [equation]) := by
  rcases htarget : c.target with _ | target
  · simp only [returned, htarget] at h
    exact (Stateful.throw_ok h).elim
  rcases value with _ | n
  · simp only [returned, htarget] at h
    exact (Stateful.throw_ok h).elim
  simp only [returned, htarget] at h
  obtain ⟨handle, q, hhandle, h⟩ := Stateful.bind_ok.1 h
  obtain ⟨o, q₁, ho, h⟩ := Stateful.bind_ok.1 h
  refine ⟨target, n, handle, q, o, rfl, rfl, hhandle, ?_⟩
  cases o with
  | opaqueText text =>
    obtain ⟨rfl, rfl⟩ := Stateful.pure_ok.1 h
    exact ⟨ho, .inl ⟨⟨text, rfl⟩, rfl⟩⟩
  | term | tag =>
    obtain ⟨equation, q₂, hequation, h⟩ := Stateful.bind_ok.1 h
    obtain ⟨hequate, rfl⟩ := Encoder.lift_ok.1 hequation
    obtain ⟨rfl, rfl⟩ := Stateful.pure_ok.1 h
    exact ⟨ho, .inr ⟨fun text => by simp, equation, hequate, rfl⟩⟩

/-! ### Flows -/

theorem step_ok {n : Node} {rest : Flow} (h : c.paths (.step n rest) s p = .ok cs p') :
    ∃ here q there, c.statement s n p = .ok here q ∧
      c.paths rest { s with position := s.position + 1 } q = .ok there p' ∧
      cs = here ++ there := by
  obtain ⟨here, q, hhere, h⟩ := Stateful.bind_ok.1 h
  obtain ⟨there, q₁, hthere, h⟩ := Stateful.bind_ok.1 h
  obtain ⟨rfl, rfl⟩ := Stateful.pure_ok.1 h
  exact ⟨here, q, there, hhere, hthere, rfl⟩

theorem ret_ok {value : Option Node} (h : c.paths (.ret value) s p = .ok cs p') :
    ∃ closed q written, c.closeBeforeReturn s p = .ok closed q ∧
      c.returned s value q = .ok written p' ∧ cs = closed ++ written := by
  obtain ⟨closed, q, hclosed, h⟩ := Stateful.bind_ok.1 h
  obtain ⟨written, q₁, hwritten, h⟩ := Stateful.bind_ok.1 h
  obtain ⟨rfl, rfl⟩ := Stateful.pure_ok.1 h
  exact ⟨closed, q, written, hclosed, hwritten, rfl⟩

theorem fork_ok {test : Node} {whole : Bool} {yes no : Flow}
    (h : c.paths (.fork test whole yes no) s p = .ok cs p') :
    ∃ cond q ys q₁ ns t, c.term s (some .bool) test p = .ok cond q ∧
      c.paths yes (c.scope yes.straight s.versions) q = .ok ys q₁ ∧
      c.paths no (c.scope no.straight s.versions) q₁ = .ok ns p' ∧
      forked cond ys ns = .ok t ∧ cs = [t] := by
  unfold paths at h
  obtain ⟨cond, q, hcond, h⟩ := Stateful.bind_ok.1 h
  have hrest : (do
      let yes ← c.paths yes (c.scope yes.straight s.versions)
      let no ← c.paths no (c.scope no.straight s.versions)
      let choice ← Encoder.lift (forked cond yes no)
      return [choice] : Encoder (List Term)) q = .ok cs p' := by
    split at h
    · obtain ⟨_, _, h, -⟩ := Stateful.bind_ok.1 h
      exact (Stateful.throw_ok h).elim
    · exact h
  obtain ⟨ys, q₁, hyes, h⟩ := Stateful.bind_ok.1 hrest
  obtain ⟨ns, q₂, hno, h⟩ := Stateful.bind_ok.1 h
  obtain ⟨t, q₃, ht, h⟩ := Stateful.bind_ok.1 h
  obtain ⟨hfork, rfl⟩ := Encoder.lift_ok.1 ht
  obtain ⟨rfl, rfl⟩ := Stateful.pure_ok.1 h
  exact ⟨cond, q, ys, q₁, ns, t, hcond, hyes, hno, hfork, rfl⟩

/-! ### Bodies -/

/-- The ports that a body writes are noted behind its constraints. -/
theorem encodeBody_ok {body : List Node} {r : BodyConstraints}
    (h : c.encodeBody body p = .ok r p') :
    ∃ q, (c.forBody body).sequence body .empty p = .ok r.constraints q ∧
      r.passthrough = q.passed.toList ∧
      p'.table = (c.portsWritten body).toList.foldl SymbolTable.markWritten q.table := by
  obtain ⟨cs, q, hcs, h⟩ := Stateful.bind_ok.1 h
  obtain ⟨_, q1, hmark, h⟩ := Stateful.bind_ok.1 h
  obtain rfl := Stateful.modify_ok.1 hmark
  obtain ⟨q2, q3, hget, h⟩ := Stateful.bind_ok.1 h
  obtain ⟨rfl, rfl⟩ := Stateful.get_ok.1 hget
  obtain ⟨rfl, rfl⟩ := Stateful.pure_ok.1 h
  exact ⟨q, hcs, rfl, rfl⟩

end HybridStep.Context
