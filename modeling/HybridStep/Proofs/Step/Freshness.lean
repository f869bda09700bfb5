import HybridStep.Proofs.Encoding.Traces
import HybridStep.Proofs.Step.Run
import HybridStep.Proofs.Step.Unfolding

/-! # Fresh symbols in a step

A path through a step takes one arm of every choice in the constraints of its modifiers. Within one
modifier no path defines a symbol twice. But versions are counted anew in every body, so two
modifiers that write one port define the same versions of it: the writes of a step are fresh exactly
if no symbol is defined by two of its modifiers. -/

namespace HybridStep

open Term (definesList)

namespace Trace

/-- The paths through several trees of writes, one after the other. -/
def through : List Trace → List (List (List Term))
  | [] => [[]]
  | tr :: trs => tr.paths.flatMap fun path => (through trs).map fun rest => path ++ rest

/-- Whatever path is taken, no symbol is defined by two different writes. -/
def Fresh (trs : List Trace) : Prop := ∀ path ∈ through trs, FreshWrites path

instance (trs : List Trace) : Decidable (Fresh trs) := inferInstanceAs (Decidable (∀ path ∈ _, _))

/-- No symbol is defined by two of several lists of constraints. -/
def Separate (css : List (List Term)) : Prop :=
  css.Pairwise fun cs cs' => ∀ x ∈ definesList cs, x ∉ definesList cs'

instance (css : List (List Term)) : Decidable (Separate css) :=
  inferInstanceAs (Decidable (List.Pairwise _ _))

theorem mem_through_cons {tr : Trace} {trs : List Trace} {path : List (List Term)} :
    path ∈ through (tr :: trs) ↔
      ∃ first ∈ tr.paths, ∃ rest ∈ through trs, path = first ++ rest := by
  simp [through, eq_comm]

theorem through_ne_nil (trs : List Trace) : ∃ path, path ∈ through trs := by
  induction trs with
  | nil => exact ⟨[], List.mem_cons_self⟩
  | cons tr trs ih =>
    obtain ⟨first, hfirst⟩ := List.exists_mem_of_ne_nil _ tr.paths_ne_nil
    obtain ⟨rest, hrest⟩ := ih
    exact ⟨first ++ rest, mem_through_cons.2 ⟨first, hfirst, rest, hrest, rfl⟩⟩

/-- A symbol is defined on a path through several trees if one of them defines it. -/
theorem mem_through_defines {x : String} (trs : List Trace) :
    (∃ path ∈ through trs, ∃ w ∈ path, x ∈ definesList w) ↔
      ∃ tr ∈ trs, x ∈ definesList tr.constraints := by
  induction trs with
  | nil => simp [through]
  | cons tr trs ih =>
    simp only [List.mem_cons, exists_eq_or_imp]
    rw [← ih, mem_defines]
    constructor
    · rintro ⟨path, hpath, w, hw, hx⟩
      obtain ⟨first, hfirst, rest, hrest, rfl⟩ := mem_through_cons.1 hpath
      exact (List.mem_append.1 hw).imp (fun hw => ⟨first, hfirst, w, hw, hx⟩)
        fun hw => ⟨rest, hrest, w, hw, hx⟩
    · rintro (⟨first, hfirst, w, hw, hx⟩ | ⟨rest, hrest, w, hw, hx⟩)
      · obtain ⟨rest, hrest⟩ := through_ne_nil trs
        exact ⟨_, mem_through_cons.2 ⟨first, hfirst, rest, hrest, rfl⟩, w,
          List.mem_append_left _ hw, hx⟩
      · obtain ⟨first, hfirst⟩ := List.exists_mem_of_ne_nil _ tr.paths_ne_nil
        exact ⟨_, mem_through_cons.2 ⟨first, hfirst, rest, hrest, rfl⟩, w,
          List.mem_append_right _ hw, hx⟩

theorem fresh_cons {tr : Trace} {trs : List Trace} : Fresh (tr :: trs) ↔
    (∀ path ∈ tr.paths, FreshWrites path) ∧ Fresh trs ∧
      ∀ tr' ∈ trs, ∀ x ∈ definesList tr.constraints, x ∉ definesList tr'.constraints := by
  constructor
  · intro h
    have hpair := fun first hfirst rest hrest => List.pairwise_append.1
      (h _ (mem_through_cons.2 ⟨first, hfirst, rest, hrest, rfl⟩))
    obtain ⟨first₀, hfirst₀⟩ := List.exists_mem_of_ne_nil _ tr.paths_ne_nil
    obtain ⟨rest₀, hrest₀⟩ := through_ne_nil trs
    refine ⟨fun path hpath => (hpair path hpath rest₀ hrest₀).1,
      fun path hpath => (hpair first₀ hfirst₀ path hpath).2.1, fun tr' htr' x hx hx' => ?_⟩
    obtain ⟨first, hfirst, w, hw, hxw⟩ := tr.mem_defines.1 hx
    obtain ⟨rest, hrest, w', hw', hxw'⟩ := (mem_through_defines trs).2 ⟨tr', htr', hx'⟩
    exact (hpair first hfirst rest hrest).2.2 w hw w' hw' x hxw hxw'
  · rintro ⟨hfirsts, hrests, hseparate⟩ path hpath
    obtain ⟨first, hfirst, rest, hrest, rfl⟩ := mem_through_cons.1 hpath
    refine List.pairwise_append.2 ⟨hfirsts first hfirst, hrests rest hrest,
      fun w hw w' hw' x hx hx' => ?_⟩
    obtain ⟨tr', htr', hxtr'⟩ := (mem_through_defines trs).1 ⟨rest, hrest, w', hw', hx'⟩
    exact hseparate tr' htr' x (tr.mem_defines.2 ⟨first, hfirst, w, hw, hx⟩) hxtr'

/-- Paths through several trees are fresh exactly if those through each of them are and no symbol is
defined by two of them. -/
theorem fresh_iff (trs : List Trace) : Fresh trs ↔
    (∀ tr ∈ trs, ∀ path ∈ tr.paths, FreshWrites path) ∧ Separate (trs.map constraints) := by
  induction trs with
  | nil => simp [Fresh, through, FreshWrites, Separate]
  | cons tr trs ih =>
    rw [fresh_cons, ih, List.forall_mem_cons, Separate, Separate, List.map_cons,
      List.pairwise_cons, List.forall_mem_map]
    tauto

end Trace

/-! ### Modifiers -/

variable {m : Model} {options : Options} {C : BodyCache} {e : EntityId} {t t' : SymbolTable}
variable {xs : List ModifierConstraints} {s : StepConstraints}

/-- Encodes a whole body as the tree of its writes. The ports that it writes are noted. -/
def Context.traceBody (c : Context) (body : List Node) : Encoder Trace := do
  let tr ← c.trace (.ofBody body) (c.scope (Flow.ofBody body).straight .empty)
  modify fun s => { s with table := c.writtenPorts.toList.foldl SymbolTable.markWritten s.table }
  return tr

/-- The tree of writes of a modifier, with the bodies of a cache. -/
def Model.traceModifier (m : Model) (options : Options) (C : BodyCache) : Modifier → Tabled Trace
  | .update u =>
    match C.body? (m.update u).function with
    | some f => ((bodyContext m options u f).traceBody f.body).alone
    | none => pure (.stop [])
  | .influence i => do
    let equation ← HybridStep.encodeInfluence m i
    return .stop [equation]
  | .subentity _ => pure (.stop [])

/-- The trees of writes of several modifiers, each on the table that the one before leaves. -/
def Model.traceModifiers (m : Model) (options : Options) (C : BodyCache) :
    List Modifier → Tabled (List Trace)
  | [] => pure []
  | x :: xs => do
    let tr ← m.traceModifier options C x
    let trs ← traceModifiers m options C xs
    return tr :: trs

/-- The trees of writes of a step. -/
def Model.Traced (m : Model) (options : Options) (e : EntityId) (C : BodyCache)
    (s : StepConstraints) (trs : List Trace) : Prop :=
  ∃ t, Tabled.seed m e (.fresh options.stepName) = .ok () t ∧
    m.traceModifiers options C (s.modifiers.map (·.modifier)) t = .ok trs s.table ∧
    trs.map (·.constraints) = s.modifiers.map (·.constraints)

/-- An update is fresh on each of its paths, and the ports of its symbols are those that its body
writes. -/
theorem trace_of_encodeUpdate {u : UpdateId} {f : UpdateFunction} {r : BodyConstraints}
    (h : encodeUpdate m options u f t = .ok r t') (hc : t.Canonical m) :
    ∃ tr, ((bodyContext m options u f).traceBody f.body).alone t = .ok tr t' ∧
      tr.constraints = r.constraints ∧
      ∀ path ∈ tr.paths, (bodyContext m options u f).FreshPath (fun _ => 0) path := by
  have hcanonical := encodeUpdate_canonical hc h
  obtain ⟨q, hq, -, rfl⟩ := encodeUpdate_ok h
  obtain ⟨tr, htr, hconstraints⟩ := Context.trace_of_paths _ hq
  refine ⟨tr, ?_, hconstraints, ?_⟩
  · refine Encoder.alone_ok.2 ⟨_, Stateful.bind_ok.2 ⟨tr, q, htr,
      Stateful.bind_ok.2 ⟨(), _, Stateful.modify_ok.2 rfl, rfl⟩⟩, rfl⟩
  · have hzero : Scope.previous ((bodyContext m options u f).scope
        (Flow.ofBody f.body).straight .empty) = fun _ => 0 := by
      funext key
      rw [Context.previous_scope]
      rfl
    rw [← hzero]
    exact Context.trace_fresh hcanonical _ htr (SymbolTable.extends_markAll _)
      (Context.at_scope _ _) (Context.owns_ofBody _)

/-- **Each modifier is fresh on each of its paths.** -/
theorem Encodes.traced (h : Encodes m options C t xs t') (hc : t.Canonical m) :
    ∃ trs, m.traceModifiers options C (xs.map (·.modifier)) t = .ok trs t' ∧
      trs.map (·.constraints) = xs.map (·.constraints) ∧
      ∀ tr ∈ trs, ∀ path ∈ tr.paths, Trace.FreshWrites path := by
  induction h with
  | nil => exact ⟨[], rfl, rfl, by simp⟩
  | @update t t₁ t' u f r xs hf he hxs ih =>
    obtain ⟨tr, htr, hconstraints, hfresh⟩ := trace_of_encodeUpdate he hc
    obtain ⟨trs, htrs, hall, hrest⟩ := ih (encodeUpdate_canonical hc he)
    have hfirst : m.traceModifier options C (.update u) t = .ok tr t₁ := by
      rw [Model.traceModifier, hf]
      exact htr
    refine ⟨tr :: trs, Stateful.bind_ok.2 ⟨tr, t₁, hfirst, Stateful.bind_ok.2 ⟨trs, t', htrs, rfl⟩⟩,
      by simp [hconstraints, hall], List.forall_mem_cons.2 ⟨fun path hpath => ?_, hrest⟩⟩
    exact (hfresh path hpath).fresh
  | @influence t t₁ t' i equation xs he hxs ih =>
    obtain ⟨trs, htrs, hall, hrest⟩ := ih (encodeInfluence_canonical hc he)
    have hfirst : m.traceModifier options C (.influence i) t = .ok (.stop [equation]) t₁ :=
      Stateful.bind_ok.2 ⟨equation, t₁, he, rfl⟩
    refine ⟨.stop [equation] :: trs, Stateful.bind_ok.2 ⟨_, t₁, hfirst,
      Stateful.bind_ok.2 ⟨trs, t', htrs, rfl⟩⟩, by simp [hall, Trace.constraints],
      List.forall_mem_cons.2 ⟨?_, hrest⟩⟩
    simp [Trace.paths, Trace.FreshWrites]

/-- A modifier only defines symbols of what it touches. -/
theorem Encodes.touches (h : Encodes m options C t xs t') (hc : t.Canonical m) :
    ∀ x ∈ xs, ∀ z ∈ definesList x.constraints,
      ∃ key v, m.Names z key v ∧ m.Touches options C x.modifier key v := by
  induction h with
  | nil => simp
  | @update t t₁ t' u f r xs hf he hxs ih =>
    refine List.forall_mem_cons.2 ⟨fun z hz => ?_, ih (encodeUpdate_canonical hc he)⟩
    obtain ⟨tr, -, hconstraints, hfresh⟩ := trace_of_encodeUpdate he hc
    rw [← hconstraints] at hz
    obtain ⟨path, hpath, w, hw, hzw⟩ := tr.mem_defines.1 hz
    obtain ⟨key, v, hname, hown, -⟩ := (hfresh path hpath).symbols hw hzw
    refine ⟨_, v, hname, ?_⟩
    cases key with
    | port q => exact ⟨by rw [Model.writtenBy_update hf]; exact hown, hname.2⟩
    | «local» n => exact ⟨rfl, hname.2⟩
  | @influence t t₁ t' i equation xs he hxs ih =>
    refine List.forall_mem_cons.2 ⟨fun z hz => ?_, ih (encodeInfluence_canonical hc he)⟩
    obtain ⟨target, source, htarget, -, heq⟩ := encodeInfluence_inside he .rfl
    obtain rfl := SymbolTable.Canonical.postStep (encodeInfluence_canonical hc he) htarget
    obtain ⟨value, -, heq⟩ := Attempt.bind_ok.1 heq
    rw [definesList, Term.defines_mkEq (checked_eq_ok.1 heq)] at hz
    obtain rfl : z = _ := List.mem_singleton.1 hz
    exact ⟨.port _, .current, ⟨rfl, by simp [Version.prior]⟩, List.mem_singleton_self _,
      by simp [Version.prior]⟩

namespace Model

/-- If no two modifiers write one port, then all writes of a step are fresh. -/
theorem separate_of_apart (hm : m.Built) {d : Option Rat} {cache : BodyCache}
    (h : m.step options e d cache = .ok s C)
    (hapart : m.Apart options C (s.modifiers.map (·.modifier))) :
    Trace.Separate (s.modifiers.map (·.constraints)) := by
  have hstep := step_ok hm.wellFormed h
  obtain ⟨t, hseed, henc⟩ := hstep.encodes
  have htouches := henc.touches (seeded hseed).1
  have hpair := List.pairwise_map.1 (hapart.and (nodup_of_opens hm.wellFormed hstep.opens))
  refine List.pairwise_map.2 (hpair.imp_of_mem fun {x y} hx hy hxy z hzx hzy => ?_)
  obtain ⟨key, v, hname, htouch⟩ := htouches x hx z hzx
  obtain ⟨key', v', hname', htouch'⟩ := htouches y hy z hzy
  obtain ⟨rfl, rfl⟩ := hname.unique hname'
  cases key with
  | step => exact htouch
  | port q => exact hxy.1 q htouch.1 htouch'.1
  | «local» n owner => exact hxy.2 (htouch.1.symm.trans htouch'.1)

theorem exists_traced (hm : m.Built) {d : Option Rat} {cache : BodyCache}
    (h : m.step options e d cache = .ok s C) : ∃ trs, m.Traced options e C s trs ∧
      (Trace.Fresh trs ↔ Trace.Separate (s.modifiers.map (·.constraints))) := by
  obtain ⟨t, hseed, henc⟩ := (step_ok hm.wellFormed h).encodes
  obtain ⟨trs, htrs, hconstraints, hfresh⟩ := henc.traced (seeded hseed).1
  refine ⟨trs, ⟨t, hseed, htrs, hconstraints⟩, ?_⟩
  rw [Trace.fresh_iff, hconstraints]
  exact and_iff_right hfresh

/-- **The writes of a step are fresh exactly if no symbol is defined by two of its modifiers.** This
is so if no two of them write one port. -/
theorem writes_fresh_iff_separate (hm : m.Built) {d : Option Rat} {cache : BodyCache}
    (h : m.step options e d cache = .ok s C) : ∃ trs, m.Traced options e C s trs ∧
      (Trace.Fresh trs ↔ Trace.Separate (s.modifiers.map (·.constraints))) ∧
      (m.Apart options C (s.modifiers.map (·.modifier)) → Trace.Fresh trs) := by
  obtain ⟨trs, htraced, hiff⟩ := exists_traced hm h
  exact ⟨trs, htraced, hiff, fun hapart => hiff.2 (separate_of_apart hm h hapart)⟩

/-- The writes of a step of the tank are fresh. -/
theorem tank_writes_fresh : ∃ m e s cache trs, tankDefinition.build = .ok (m, e) ∧
    m.step {} e (some 1) {} = .ok s cache ∧ m.Traced {} e cache s trs ∧ Trace.Fresh trs := by
  obtain ⟨m, e, s, cache, hbuild, hstep, htank⟩ := tank_step
  obtain ⟨trs, htraced, -, hfresh⟩ :=
    writes_fresh_iff_separate (ModelDefinition.build_built hbuild).1 hstep
  exact ⟨m, e, s, cache, trs, hbuild, hstep, htraced, hfresh htank.apart⟩

/-- Two updates that assign one port besides their targets. -/
def sharedPortDefinition : ModelDefinition where
  resources := [⟨"num", none, .named "integer"⟩]
  entity := .mk "e"
    [⟨"p", .internal, "num", .number (.int 0)⟩, ⟨"q", .internal, "num", .number (.int 0)⟩,
      ⟨"r", .internal, "num", .number (.int 0)⟩]
    ["s"] none
    [⟨"u", "s", "q", "|s, dt| \x7b s.p.value = 1; 2 \x7d"⟩,
      ⟨"v", "s", "r", "|s, dt| \x7b s.p.value = 3; 4 \x7d"⟩] [] []

/-- Writes of two modifiers to one port define one symbol. -/
theorem shared_port_not_fresh : ∃ m e s cache trs, sharedPortDefinition.build = .ok (m, e) ∧
    m.step {} e none {} = .ok s cache ∧ m.Traced {} e cache s trs ∧ ¬ Trace.Fresh trs := by
  have h : Attempt.succeeds (fun (m, e) => Stateful.succeeds
      (fun s _ => ¬ Trace.Separate (s.modifiers.map (·.constraints)))
      (m.encodeStepDown {} 1 e none ⟨.fresh "dt", {}⟩)) sharedPortDefinition.build := by
    decide +kernel
  obtain ⟨⟨m, e⟩, hbuild, h⟩ := Attempt.exists_of_succeeds h
  obtain ⟨s, p, hdown, h⟩ := Stateful.exists_of_succeeds h
  have hstep := step_ok_of_down hdown
  obtain ⟨trs, htraced, hiff⟩ := exists_traced (ModelDefinition.build_built hbuild).1 hstep
  exact ⟨m, e, s, p.cache, trs, hbuild, hstep, htraced, fun hf => of_decide_eq_true h (hiff.1 hf)⟩

end Model

end HybridStep
