import HybridStep.Proofs.Encoding.Plain

/-! # Reads and writes on paths

A path through a body takes one arm of every `if` and ends at the first return or at the end of the
body. What the encoding makes of a path is told by its stops alone: the statement that writes a
name as the `k`-th one of its path makes version `k` of it, and a read after exactly `k` of them
gives version `k`, or for no write at all the entry value of a port and the unversioned local. The
name of the time step is an exception: read in an expression it is the variable of the step, even
where the body has written it. -/

namespace HybridStep

/-- Where a path reads or writes: the test of an `if`, a statement, a return, or the end of the
body. -/
inductive Stop where
  | test (n : Node)
  | statement (n : Node)
  | ret (value : Option Node)
  | done

/-- The paths through a flow. -/
def Flow.walks : Flow → List (List Stop)
  | done => [[.done]]
  | step n rest => rest.walks.map fun walk => .statement n :: walk
  | ret value => [[.ret value]]
  | fork test _ yes no => (yes.walks ++ no.walks).map fun walk => .test test :: walk

/-- What the stops of each path have become: constraints, or the condition of a choice. -/
def Trace.routes : Trace → List (List (List Term))
  | stop ends => [[ends]]
  | step here rest => rest.routes.map fun route => here :: route
  | fork cond yes no => (yes.routes ++ no.routes).map fun route => [cond] :: route

namespace Context

section

variable (c : Context)

/-- The names that a stop writes. -/
def stopKeys : Stop → OrderedSet VarKey
  | .statement n => c.writtenKeys n
  | _ => .empty

/-- The number of stops that write a name. -/
def countOf (before : List Stop) (key : VarKey) : Nat :=
  before.countP fun stop => key ∈ c.stopKeys stop

/-- Whether a stop leaves the name of the time step alone. -/
def sparesStep : Stop → Bool
  | .statement n => (n.writes fun target => if c.isStep target then some () else none).isEmpty
  | _ => true

/-- How names are to be looked up after some stops of a path: the name of the time step is its
variable until it is written. -/
def asWritten (entry : Entry) (before : List Stop) : Lookup :=
  let named (n : Node) : Except EncodingError Term :=
    if c.isStep n && before.all c.sparesStep then .ok (stepVariable entry)
    else do c.reading entry (c.countOf before) (← c.keyed n)
  { c.asEncoded entry (c.countOf before) with leaf := named, held := named }

/-- What a stop becomes. -/
def stopOf (look : Lookup) : Stop → Except EncodingError (List Term)
  | .test n => (plainTerm look.leaf (some .bool) n).map fun cond => [cond]
  | .statement n => plainStatement c look n
  | .ret value => plainRet c look value
  | .done => plainDone c look

/-- What the stops of a path become, each with the names as they are looked up after those before
it. -/
def walkOf (look : List Stop → Lookup) (before : List Stop) :
    List Stop → Except EncodingError (List (List Term))
  | [] => .ok []
  | stop :: rest => do
    let here ← stopOf c (look before) stop
    let there ← walkOf look (before ++ [stop]) rest
    return here :: there

/-- Some constraints are those of a tree of writes in which every path has become what its stops
become. -/
def Routed (look : List Stop → Lookup) (fl : Flow) (cs : List Term) : Prop :=
  ∃ tr : Trace, tr.constraints = cs ∧ fl.walks.mapM (c.walkOf look []) = .ok tr.routes

end

variable {c : Context} {entry : Entry} {look : List Stop → Lookup} {before : List Stop}

/-! ### Paths as they are encoded -/

/-- The paths from a stop on. -/
theorem mapM_walkOf {stop : Stop} {here : List Term}
    (hhere : stopOf c (look before) stop = .ok here) :
    ∀ {walks : List (List Stop)} {routes : List (List (List Term))},
      walks.mapM (c.walkOf look (before ++ [stop])) = .ok routes →
        (walks.map fun walk => stop :: walk).mapM (c.walkOf look before) =
          .ok (routes.map fun route => here :: route)
  | [], routes, h => by
    cases h
    rfl
  | walk :: walks, routes, h => by
    rw [List.mapM_cons] at h
    obtain ⟨first, hfirst, h⟩ := Attempt.bind_ok.1 h
    obtain ⟨others, hothers, h⟩ := Attempt.bind_ok.1 h
    cases h
    have hwalk : c.walkOf look before (stop :: walk) = .ok (here :: first) :=
      Attempt.bind_ok.2 ⟨here, hhere, Attempt.bind_ok.2 ⟨first, hfirst, rfl⟩⟩
    rw [List.map_cons, List.mapM_cons]
    exact Attempt.bind_ok.2 ⟨_, hwalk, Attempt.bind_ok.2 ⟨_, mapM_walkOf hhere hothers, rfl⟩⟩

/-- A path that ends at once. -/
theorem mapM_walkOf_end {stop : Stop} {ends : List Term}
    (hends : stopOf c (look before) stop = .ok ends) :
    [[stop]].mapM (c.walkOf look before) = .ok [[ends]] := by
  have hrest : [[]].mapM (c.walkOf look (before ++ [stop])) = .ok [[]] := rfl
  exact mapM_walkOf hends hrest

theorem after_countOf (n : Node) :
    c.after (c.countOf before) n = c.countOf (before ++ [.statement n]) := by
  funext key
  by_cases hkey : key ∈ c.writtenKeys n <;>
    simp [after, countOf, List.countP_append, stopKeys, hkey]

theorem countOf_test (n : Node) : c.countOf (before ++ [.test n]) = c.countOf before := by
  funext key
  simp [countOf, List.countP_append, stopKeys]

/-- Names as they are looked up by the encoding, after some stops of a path. -/
def encodedAfter (c : Context) (entry : Entry) (before : List Stop) : Lookup :=
  c.asEncoded entry (c.countOf before)

/-- **Every path is encoded stop by stop.** -/
theorem routes_of_plainTrace : (fl : Flow) → ∀ {before : List Stop} {tr : Trace},
    plainTrace c entry fl (c.countOf before) = .ok tr →
      fl.walks.mapM (c.walkOf (c.encodedAfter entry) before) = .ok tr.routes
  | .done, before, tr, h => by
    obtain ⟨ends, hends, rfl⟩ := Attempt.map_ok.1 h
    exact mapM_walkOf_end hends
  | .step n rest, before, tr, h => by
    obtain ⟨here, hhere, h⟩ := Attempt.bind_ok.1 h
    obtain ⟨there, hthere, h⟩ := Attempt.bind_ok.1 h
    cases h
    rw [after_countOf] at hthere
    have hstop : stopOf c (c.encodedAfter entry before) (.statement n) = .ok here := hhere
    exact mapM_walkOf hstop (routes_of_plainTrace rest hthere)
  | .ret value, before, tr, h => by
    obtain ⟨ends, hends, rfl⟩ := Attempt.map_ok.1 h
    exact mapM_walkOf_end hends
  | .fork test whole yes no, before, tr, h => by
    obtain ⟨cond, yes', no', hcond, hyes, hno, rfl⟩ := plainTrace_fork_ok h
    have hstop : stopOf c (c.encodedAfter entry before) (.test test) = .ok [cond] :=
      Attempt.map_ok.2 ⟨cond, hcond, rfl⟩
    rw [← countOf_test test] at hyes hno
    refine mapM_walkOf hstop ?_
    rw [List.mapM_append]
    exact Attempt.bind_ok.2 ⟨_, routes_of_plainTrace yes hyes,
      Attempt.bind_ok.2 ⟨_, routes_of_plainTrace no hno, rfl⟩⟩

/-! ### Bodies that do not write the time step -/

theorem all_of_mem_walks {P : Node → Prop} {R : Prop} {n : Node} : {fl : Flow} → fl.All P R →
    ∀ {walk : List Stop}, walk ∈ fl.walks → .statement n ∈ walk → P n
  | .done, _, walk, hwalk, hn => by
    simp [Flow.walks] at hwalk
    simp [hwalk] at hn
  | .ret value, _, walk, hwalk, hn => by
    simp [Flow.walks] at hwalk
    simp [hwalk] at hn
  | .step n' rest, h, walk, hwalk, hn => by
    obtain ⟨walk, hrest, rfl⟩ := List.mem_map.1 hwalk
    rcases List.mem_cons.1 hn with hn | hn
    · cases hn
      exact h.1
    · exact all_of_mem_walks h.2 hrest hn
  | .fork test whole yes no, h, walk, hwalk, hn => by
    obtain ⟨walk, harm, rfl⟩ := List.mem_map.1 hwalk
    have hn : .statement n ∈ walk := (List.mem_cons.1 hn).resolve_left (by simp)
    rcases List.mem_append.1 harm with hyes | hno
    · exact all_of_mem_walks h.1 hyes hn
    · exact all_of_mem_walks h.2 hno hn

theorem sparesStep_of_mem_walks {body : List Node} (h : c.SparesStepIn body) {walk : List Stop}
    (hwalk : walk ∈ (Flow.ofBody body).walks) : ∀ stop ∈ walk, c.sparesStep stop = true := by
  have hall : (Flow.ofBody body).All (fun n =>
      ∀ k ∈ n.writes fun target => if c.isStep target then some () else none, False) True :=
    Flow.all_ofBody (by rw [h]; simp) fun _ => trivial
  intro stop hstop
  cases stop with
  | statement n =>
    have hnone := all_of_mem_walks hall hwalk hstop
    exact List.isEmpty_iff.2 (List.eq_nil_iff_forall_not_mem.2 hnone)
  | test | ret | done => rfl

/-- Where the time step is not written, its name is always its variable. -/
theorem stopOf_asWritten (hbefore : ∀ stop ∈ before, c.sparesStep stop = true) {stop : Stop}
    (hstop : c.sparesStep stop = true) :
    stopOf c (c.asWritten entry before) stop = stopOf c (c.encodedAfter entry before) stop := by
  have hleaf : (c.asWritten entry before).leaf = (c.encodedAfter entry before).leaf := by
    funext n
    simp only [asWritten, encodedAfter, asEncoded, List.all_eq_true.2 hbefore, Bool.and_true]
  have hmade : (c.asWritten entry before).made = (c.encodedAfter entry before).made := rfl
  have hclosing : ∀ ports, plainClosing c (c.asWritten entry before) ports =
      plainClosing c (c.encodedAfter entry before) ports :=
    fun ports => plainClosing_congr fun _ _ => rfl
  cases stop with
  | test n => simp only [stopOf, hleaf]
  | done => exact hclosing _
  | ret value => simp only [stopOf, plainRet, plainReturned, hclosing, hleaf]
  | statement n =>
    simp only [stopOf]
    cases n <;> try rfl
    case assign targets value => simp only [plainStatement, madeAll_congr hmade, hleaf]
    case augment target op value =>
      have hstep : c.isStep target = false := by
        by_contra hs
        simp [sparesStep, Node.writes, hs] at hstop
      have hheld : (c.asWritten entry before).held target =
          (c.encodedAfter entry before).held target := by
        simp only [asWritten, encodedAfter, asEncoded, hstep, Bool.false_and]
        rfl
      simp only [plainStatement, hheld, hmade, hleaf]

theorem walkOf_asWritten : ∀ {walk before : List Stop},
    (∀ stop ∈ before, c.sparesStep stop = true) → (∀ stop ∈ walk, c.sparesStep stop = true) →
      c.walkOf (c.asWritten entry) before walk = c.walkOf (c.encodedAfter entry) before walk
  | [], _, _, _ => rfl
  | stop :: walk, before, hbefore, hwalk => by
    rw [List.forall_mem_cons] at hwalk
    have hmore : ∀ x ∈ before ++ [stop], c.sparesStep x = true :=
      List.forall_mem_append.2 ⟨hbefore, List.forall_mem_singleton.2 hwalk.1⟩
    simp only [walkOf, stopOf_asWritten hbefore hwalk.1, walkOf_asWritten hmore hwalk.2]

theorem mapM_asWritten : ∀ {walks : List (List Stop)},
    (∀ walk ∈ walks, ∀ stop ∈ walk, c.sparesStep stop = true) →
      walks.mapM (c.walkOf (c.asWritten entry) []) = walks.mapM (c.walkOf (c.encodedAfter entry) [])
  | [], _ => rfl
  | walk :: walks, h => by
    rw [List.forall_mem_cons] at h
    rw [List.mapM_cons, List.mapM_cons, mapM_asWritten h.2,
      walkOf_asWritten (List.forall_mem_nil _) h.1]

end Context

/-! ### Updates -/

variable {m : Model} {options : Options} {u : UpdateId} {f : UpdateFunction} {t t' : SymbolTable}

/-- **Reads see the writes before them on their path**, and writes make the next version. This is so
for all names where the body does not write the time step, and for all but that name otherwise. -/
theorem encodeUpdate_reads_writes {r : BodyConstraints} (ht : Earlier m options (.update u) t)
    (h : encodeUpdate m options u f t = .ok r t') :
    (bodyContext m options u f).Routed ((bodyContext m options u f).encodedAfter t.entry)
        (Flow.ofBody f.body) r.constraints ∧
      ((updateContext m options u f).SparesStepIn f.body →
        (bodyContext m options u f).Routed ((bodyContext m options u f).asWritten t.entry)
          (Flow.ofBody f.body) r.constraints) := by
  obtain ⟨tr, htr, hconstraints⟩ := plainBody_of_encodeUpdate ht.tidy h
  have hstart : (bodyContext m options u f).plainTrace t.entry (Flow.ofBody f.body)
      ((bodyContext m options u f).countOf []) = .ok tr := htr
  have hroutes := Context.routes_of_plainTrace (Flow.ofBody f.body) hstart
  refine ⟨⟨tr, hconstraints, hroutes⟩, fun hspares => ⟨tr, hconstraints, ?_⟩⟩
  rw [Context.mapM_asWritten fun walk hwalk =>
    Context.sparesStep_of_mem_walks (c := bodyContext m options u f) hspares hwalk]
  exact hroutes

/-- The update of the gauge reads and writes on both of its paths as it should. -/
theorem watch_reads_writes : ∃ m e watch r t', tankDefinition.build = .ok (m, e) ∧
    UpdateFunction.read (m.update ⟨0⟩).function = .ok watch ∧
    (updateContext m {} ⟨0⟩ watch).SparesStepIn watch.body ∧
    encodeUpdate m {} ⟨0⟩ watch (.fresh "dt") = .ok r t' ∧
    (bodyContext m {} ⟨0⟩ watch).Routed
      ((bodyContext m {} ⟨0⟩ watch).asWritten (SymbolTable.fresh "dt").entry)
      (Flow.ofBody watch.body) r.constraints := by
  have h : Attempt.succeeds (fun (m, _) => Attempt.succeeds (fun watch =>
      Stateful.succeeds (fun _ _ => (updateContext m {} ⟨0⟩ watch).SparesStepIn watch.body)
        (encodeUpdate m {} ⟨0⟩ watch (.fresh "dt")))
      (UpdateFunction.read (m.update ⟨0⟩).function)) tankDefinition.build := by decide +kernel
  obtain ⟨⟨m, e⟩, hbuild, h⟩ := Attempt.exists_of_succeeds h
  obtain ⟨watch, hwatch, h⟩ := Attempt.exists_of_succeeds h
  obtain ⟨r, t', hr, h⟩ := Stateful.exists_of_succeeds h
  have hspares := of_decide_eq_true h
  exact ⟨m, e, watch, r, t', hbuild, hwatch, hspares, hr,
    (encodeUpdate_reads_writes .fresh hr).2 hspares⟩

/-! ### A body that writes the time step -/

theorem Trace.routes_ne_nil : (tr : Trace) → tr.routes ≠ []
  | .stop ends => by simp [routes]
  | .step here rest => by simpa [routes] using rest.routes_ne_nil
  | .fork cond yes no => by simp [routes, yes.routes_ne_nil]

/-- A body with one path has the constraints of its stops. -/
theorem Trace.constraints_of_routes : (tr : Trace) → ∀ {route : List (List Term)},
    tr.routes = [route] → tr.constraints = route.flatten
  | .stop ends, route, h => by
    obtain rfl := List.singleton_inj.1 h
    simp [constraints]
  | .step here rest, route, h => by
    obtain ⟨route, hroute, rfl⟩ := List.map_eq_singleton_iff.1 h
    rw [constraints, rest.constraints_of_routes hroute, List.flatten_cons]
  | .fork cond yes no, route, h => by
    obtain ⟨_, hroute, -⟩ := List.map_eq_singleton_iff.1 h
    rcases List.append_eq_singleton_iff.1 hroute with ⟨hyes, -⟩ | ⟨-, hno⟩
    · exact absurd hyes yes.routes_ne_nil
    · exact absurd hno no.routes_ne_nil

/-- An update that doubles the time step and gives what it has made. -/
def doubledStepDefinition : ModelDefinition where
  resources := [⟨"num", none, .named "real"⟩]
  entity := .mk "e" [⟨"p", .internal, "num", .number (.int 0)⟩] ["s"] none
    [⟨"u", "s", "p", "|s, dt| \x7b let dt = dt * 2.0; dt \x7d"⟩] [] []

/-- Where the time step has been written, a read of its name is still the variable of the step. -/
theorem doubled_step_not_read : ∃ m e u f r t', doubledStepDefinition.build = .ok (m, e) ∧
    u ∈ m.activeUpdates e ∧ UpdateFunction.read (m.update u).function = .ok f ∧
    encodeUpdate m {} u f (.fresh "dt") = .ok r t' ∧
    ¬ (bodyContext m {} u f).Routed
      ((bodyContext m {} u f).asWritten (SymbolTable.fresh "dt").entry)
      (Flow.ofBody f.body) r.constraints := by
  have h : Attempt.succeeds (fun (m, e) => ⟨0⟩ ∈ m.activeUpdates e && Attempt.succeeds (fun f =>
      Stateful.succeeds (fun r _ => Attempt.succeeds (fun routes =>
          routes.length = 1 ∧ routes.flatten.flatten ≠ r.constraints)
        ((Flow.ofBody f.body).walks.mapM ((bodyContext m {} ⟨0⟩ f).walkOf
          ((bodyContext m {} ⟨0⟩ f).asWritten (SymbolTable.fresh "dt").entry) [])))
        (encodeUpdate m {} ⟨0⟩ f (.fresh "dt")))
      (UpdateFunction.read (m.update ⟨0⟩).function)) doubledStepDefinition.build := by
    decide +kernel
  obtain ⟨⟨m, e⟩, hbuild, h⟩ := Attempt.exists_of_succeeds h
  rw [Bool.and_eq_true, decide_eq_true_eq] at h
  obtain ⟨hu, h⟩ := h
  obtain ⟨f, hf, h⟩ := Attempt.exists_of_succeeds h
  obtain ⟨r, t', hr, h⟩ := Stateful.exists_of_succeeds h
  obtain ⟨routes, hroutes, h⟩ := Attempt.exists_of_succeeds h
  refine ⟨m, e, ⟨0⟩, f, r, t', hbuild, hu, hf, hr, ?_⟩
  rintro ⟨tr, hconstraints, htr⟩
  obtain rfl := Except.ok.inj (hroutes.symm.trans htr)
  obtain ⟨hone, hother⟩ := of_decide_eq_true h
  obtain ⟨route, hroute⟩ := List.length_eq_one_iff.1 hone
  rw [hroute, List.flatten_singleton] at hother
  exact hother ((tr.constraints_of_routes hroute).symm.trans hconstraints)

end HybridStep
