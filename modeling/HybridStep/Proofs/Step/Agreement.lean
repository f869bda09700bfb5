import HybridStep.Proofs.Step.Run
import HybridStep.Proofs.Step.Unfolding

/-! # Agreement of a step with its run

Two inductions over the modifiers of a step. A solution of all constraints gives the post-step
variables the values with which the run ends; and every run is recorded by a solution. The values of
the ports are followed by `Tracks`: a port that has been written has the value of its post-step
variable, every other port its value before the step. In the second induction the solution is
changed modifier by modifier, and what a later modifier changes is not visible to an earlier one,
because no two modifiers write one port. -/

namespace HybridStep

open SymbolTable

variable {K : Type} [Field K] [LinearOrder K]
variable {m : Model} {options : Options} {C : BodyCache} {t t' T : SymbolTable}
variable {xs : List ModifierConstraints} {mods : List Modifier}
variable {σ σ' : Valuation K} {start : StepStart K} {ports : PortId → Val K}

/-- A start with values of the right sorts, the ports with their values before the step. -/
structure StepStart.Fits (start : StepStart K) (m : Model) (options : Options) (C : BodyCache)
    (mods : List Modifier) : Prop where
  ports (q : PortId) : (start.ports q).sort = m.sortOfPort q
  prior {q : PortId} {v : Val K} : m.priorValue? q = some v → start.ports q = v
  locals {u : UpdateId} {f : UpdateFunction} : .update u ∈ mods →
    C.body? (m.update u).function = some f → ∀ name,
      (start.locals u name).sort = (bodyContext m options u f).sortOfLocal name

/-- A valuation that gives the time step and the locals read first the values of a start. -/
structure StepStart.Enters (start : StepStart K) (σ : Valuation K) (T : SymbolTable)
    (mods : List Modifier) : Prop where
  dt : σ T.stepName = .real start.dt
  locals {u : UpdateId} {name : String} {y : Variable} : .update u ∈ mods →
    T.get? (.local name (.update u)) .current = some (.var y) → start.locals u name = σ y.name

/-- Ports that have been written have the values of their post-step variables, all others those of
the start. -/
structure Tracks (m : Model) (σ : Valuation K) (T : SymbolTable) (W : OrderedSet PortId)
    (start : StepStart K) (ports : PortId → Val K) : Prop where
  sorted (q : PortId) : (ports q).sort = m.sortOfPort q
  written {q : PortId} {x : Variable} :
    q ∈ W → T.get? (.port q) .current = some (.var x) → ports q = σ x.name
  kept {q : PortId} : q ∉ W → ports q = start.ports q

variable {W : OrderedSet PortId}

omit [LinearOrder K] in
theorem Tracks.enters (ht : Tracks m σ T W start ports) (hs : start.Fits m options C mods)
    (he : start.Enters σ T mods) {u : UpdateId} {f : UpdateFunction} (hu : .update u ∈ mods)
    (hf : C.body? (m.update u).function = some f) :
    (bodyContext m options u f).Enters σ T W (start.store u ports) where
  sorted := by
    have hval : ∀ key, (start.value u ports key).sort =
        (bodyContext m options u f).sortOfKey key := fun key => by
      cases key with
      | port q => exact ht.sorted q
      | «local» name => exact hs.locals hu hf name
    exact ⟨hval, fun _ => hval⟩
  prior := fun hq hv => (ht.kept hq).trans (hs.prior hv)
  dt := he.dt
  written := ht.written
  locals := fun hy => he.locals hu hy

/-- What an influence reads denotes the value of its source. -/
theorem Tracks.denotes {A : Arith K} (ht : Tracks m σ T W start ports)
    (hs : start.Fits m options C mods) (hc : T.Canonical m) {q : PortId} {term : Term}
    (h : T.get? (.port q) (entryVersion W q) = some term) : term.Denotes A σ (ports q) := by
  have hsort : (ports q).sort = term.sort :=
    (ht.sorted q).trans (sort_of_portTerm (hc.fits h)).symm
  unfold entryVersion at h
  split_ifs at h with hW
  · rcases hc.var_or_prior h with ⟨x, rfl⟩ | ⟨-, hp, -⟩
    · exact ⟨(ht.written hW h).symm, hsort⟩
    · cases hp
  · have hterm : priorTerm m q = .ok term := by
      have hf : portTerm m q .prior = .ok term := hc.fits h
      rwa [portTerm, if_pos rfl] at hf
    obtain ⟨v, hv, hd⟩ := Context.constant?_denotes (A := A) (σ := σ) (priorTerm_ok hterm)
    rw [ht.kept hW, hs.prior hv]
    exact hd

omit [Field K] [LinearOrder K] in
/-- The body of an update has run. -/
theorem Tracks.update {u : UpdateId} {f : UpdateFunction} {r : BodyConstraints} {st' : Store K}
    (ht : Tracks m σ T t.written start ports) (h : encodeUpdate m options u f t = .ok r t')
    (hstays : (bodyContext m options u f).Stays (start.store u ports) st')
    (hsorted : (bodyContext m options u f).SortedStore st')
    (hends : ∀ q ∈ (bodyContext m options u f).writtenPorts, ∀ x,
      T.get? (.port q) .current = some (.var x) → st'.val (.port q) = σ x.name) :
    Tracks m σ T t'.written start fun q => st'.val (.port q) where
  sorted q := hsorted.val (.port q)
  written := by
    intro q x hq hx
    by_cases hw : q ∈ (bodyContext m options u f).writtenPorts
    · exact hends q hw x hx
    · rw [hstays.frame hw]
      exact ht.written (((encodeUpdate_written h).1 hq).resolve_right hw) hx
  kept := by
    intro q hq
    rw [encodeUpdate_written h, not_or] at hq
    rw [hstays.frame hq.2]
    exact ht.kept hq.1

omit [Field K] [LinearOrder K] in
/-- An influence has copied its source. -/
theorem Tracks.influence {i : InfluenceId} {equation : Term} {v : Val K}
    (ht : Tracks m σ T t.written start ports) (h : encodeInfluence m i t = .ok equation t')
    (hv : v.sort = m.sortOfPort (m.influence i).target)
    (hends : ∀ x, T.get? (.port (m.influence i).target) .current = some (.var x) →
      v = σ x.name) :
    Tracks m σ T t'.written start (Function.update ports (m.influence i).target v) where
  sorted q := by
    by_cases hq : q = (m.influence i).target
    · subst hq
      rw [Function.update_self]
      exact hv
    · rw [Function.update_of_ne hq]
      exact ht.sorted q
  written := by
    intro q x hq hx
    by_cases hw : q = (m.influence i).target
    · subst hw
      rw [Function.update_self]
      exact hends x hx
    · rw [Function.update_of_ne hw]
      exact ht.written (((encodeInfluence_written h).1 hq).resolve_right hw) hx
  kept := by
    intro q hq
    rw [encodeInfluence_written h, not_or] at hq
    rw [Function.update_of_ne hq.2]
    exact ht.kept hq.1

/-! ### Exactness -/

/-- What the modifiers of a step need to be like: their bodies leave the time step alone, and the
handles of their locals have the right sorts in the last table. -/
structure Agreeable (m : Model) (options : Options) (C : BodyCache) (T : SymbolTable)
    (mods : List Modifier) : Prop where
  canonical : T.Canonical m
  sorted {u : UpdateId} {f : UpdateFunction} : .update u ∈ mods →
    C.body? (m.update u).function = some f → (bodyContext m options u f).SortedTable T
  spares {x : Modifier} : x ∈ mods → m.SparesStep options C x

variable {A : Arith K}

/-- The equation of an influence says that the post-step variable of the target has the value of the
source, as a value of the sort of the target. -/
theorem Tracks.influence_means {i : InfluenceId} {equation : Term}
    (ht : Tracks m σ T t.written start ports) (h : encodeInfluence m i t = .ok equation t')
    (hT : t'.Extends T) (hs : start.Fits m options C mods) (hc : T.Canonical m) :
    ∃ v, (ports (m.influence i).source).as? (m.sortOfPort (m.influence i).target) = some v ∧
      (equation.Holds A σ ↔ σ (m.postStep (m.influence i).target).name = v) := by
  obtain ⟨target, source, htarget, hsource, heq⟩ := encodeInfluence_inside h hT
  obtain rfl := hc.postStep htarget
  exact influenceEquation_means heq (ht.denotes hs hc hsource)

variable [IsStrictOrderedRing K]

/-- A solution of the constraints of an update follows its run. -/
theorem Tracks.exact_update {u : UpdateId} {f : UpdateFunction} {r : BodyConstraints}
    (ht : Tracks m σ T t.written start ports) (h : encodeUpdate m options u f t = .ok r t')
    (hT : t'.Extends T) (ha : Agreeable m options C T mods) (hu : .update u ∈ mods)
    (hf : C.body? (m.update u).function = some f) (hs : start.Fits m options C mods)
    (he : start.Enters σ T mods) (hpass : r.passthrough = [])
    (hold : ∀ k ∈ r.constraints, k.Holds A σ) :
    ∃ ports', m.runModifier options A C start ports (.update u) = some ports' ∧
      Tracks m σ T t'.written start ports' := by
  have henters := ht.enters hs he hu hf
  obtain ⟨st', hrun, hends⟩ := encodeUpdate_exact h hT ha.canonical (ha.sorted hu hf)
    (ha.spares hu _ hf) henters hpass hold
  have hstays := Context.run_stays (Context.covers_ofBody (ha.spares hu _ hf)) hrun
  refine ⟨fun q => st'.val (.port q), by simp [Model.runModifier, hf, hrun], ?_⟩
  refine ht.update h hstays (hstays.sorted henters.sorted) fun q hq x hx => ?_
  obtain rfl := Term.var.inj (ha.canonical.postStep hx)
  exact (hends q hq).symm

omit [IsStrictOrderedRing K] in
/-- A solution of the equation of an influence follows its run. -/
theorem Tracks.exact_influence {i : InfluenceId} {equation : Term}
    (ht : Tracks m σ T t.written start ports) (h : encodeInfluence m i t = .ok equation t')
    (hT : t'.Extends T) (hs : start.Fits m options C mods) (hc : T.Canonical m)
    (hold : equation.Holds A σ) :
    ∃ ports', m.runModifier options A C start ports (.influence i) = some ports' ∧
      Tracks m σ T t'.written start ports' := by
  obtain ⟨v, hv, hhold⟩ := ht.influence_means h hT hs hc
  refine ⟨Function.update ports (m.influence i).target v, by simp [Model.runModifier, hv], ?_⟩
  refine ht.influence h (Val.sort_of_as? hv) fun x hx => ?_
  obtain rfl := Term.var.inj (hc.postStep hx)
  exact (hhold.1 hold).symm

/-- **Solutions follow the run**: if nothing is passed through, a solution of the constraints of
some modifiers tracks their run. -/
theorem Encodes.exact (h : Encodes m options C t xs t') (hT : t'.Extends T)
    (hmods : xs.map (·.modifier) ⊆ mods) (ha : Agreeable m options C T mods)
    (hpass : ∀ x ∈ xs, x.passthrough = []) (hs : start.Fits m options C mods)
    (he : start.Enters σ T mods) (hold : ∀ x ∈ xs, ∀ k ∈ x.constraints, k.Holds A σ)
    (ht : Tracks m σ T t.written start ports) :
    ∃ ports', m.runModifiers options A C start (xs.map (·.modifier)) ports = some ports' ∧
      Tracks m σ T t'.written start ports' := by
  induction h generalizing ports with
  | nil => exact ⟨ports, rfl, ht⟩
  | update hf hr hxs ih =>
    rw [List.map_cons, List.cons_subset] at hmods
    rw [List.forall_mem_cons] at hpass hold
    obtain ⟨ports₁, hrun, ht₁⟩ := ht.exact_update hr (hxs.extends.trans hT) ha hmods.1 hf hs he
      hpass.1 hold.1
    rw [List.map_cons, Model.runModifiers_cons hrun]
    exact ih hT hmods.2 hpass.2 hold.2 ht₁
  | influence hr hxs ih =>
    rw [List.map_cons, List.cons_subset] at hmods
    rw [List.forall_mem_cons] at hpass hold
    obtain ⟨ports₁, hrun, ht₁⟩ := ht.exact_influence hr (hxs.extends.trans hT) hs ha.canonical
      (hold.1 _ List.mem_cons_self)
    rw [List.map_cons, Model.runModifiers_cons hrun]
    exact ih hT hmods.2 hpass.2 hold.2 ht₁

/-! ### Soundness -/

section

omit [Field K] [LinearOrder K] [IsStrictOrderedRing K]

theorem Context.Alters.touches {u : UpdateId} {f : UpdateFunction}
    (hf : C.body? (m.update u).function = some f)
    (h : (bodyContext m options u f).Alters T (fun _ => 0) σ σ') :
    T.Changes (m.Touches options C (.update u)) σ σ' := by
  refine h.changes.mono ?_
  rintro _ v ⟨key, rfl, hown, hv⟩
  cases key with
  | port q =>
    refine ⟨by rw [Model.writtenBy_update hf]; exact hown, ?_⟩
    rcases hv with ⟨j, rfl, hj⟩ | ⟨rfl, -⟩
    · simpa [Version.prior] using Nat.ne_of_gt hj
    · simp [Version.prior]
  | «local» name =>
    refine ⟨rfl, ?_⟩
    rcases hv with ⟨j, rfl, -⟩ | ⟨-, q, hq⟩
    · simp
    · cases hq

/-- Modifiers do not touch what a step starts from. -/
theorem StepStart.Enters.changes {mods' : List Modifier} (he : start.Enters σ T mods)
    (hc : T.Canonical m) (hn : T.NamesDistinct)
    (h : T.Changes (m.TouchedBy options C mods') σ σ') : start.Enters σ' T mods where
  dt := (h.same (x := ⟨T.stepName, .real⟩) hn hc.step fun ⟨_, _, hx⟩ => hx).trans he.dt
  locals := fun hx hy => (he.locals hx hy).trans
    (h.same hn hy fun ⟨_, _, hx⟩ => hx.2 rfl).symm

/-- Later modifiers do not touch ports that have been written before. -/
theorem Tracks.changes (ht : Tracks m σ T W start ports) (hn : T.NamesDistinct)
    (h : T.Changes (m.TouchedBy options C mods) σ σ')
    (hnew : ∀ x ∈ mods, ∀ q ∈ m.writtenBy options C x, q ∉ W) : Tracks m σ' T W start ports where
  sorted := ht.sorted
  written := by
    intro q y hq hy
    rw [ht.written hq hy, h.same hn hy]
    rintro ⟨x, hx, hw, -⟩
    exact hnew x hx q hw hq
  kept := ht.kept

/-- Some modifiers leave alone what another one, or one before it, has written: it is none of them,
and they write none of these ports. -/
structure Model.LeaveAlone (m : Model) (options : Options) (C : BodyCache) (W : OrderedSet PortId)
    (x : Modifier) (rest : List Modifier) : Prop where
  other : x ∉ rest
  apart : ∀ y ∈ rest, ∀ q ∈ m.writtenBy options C x, q ∉ m.writtenBy options C y
  earlier : ∀ y ∈ rest, ∀ q ∈ m.writtenBy options C y, q ∉ W

/-- Later modifiers change nothing that the constraints of a body can hold. -/
theorem Model.LeaveAlone.agrees {u : UpdateId} {f : UpdateFunction} {rest : List Modifier}
    (hrest : m.LeaveAlone options C W (.update u) rest)
    (hf : C.body? (m.update u).function = some f) (hc : T.Canonical m) (hn : T.NamesDistinct)
    (h : T.Changes (m.TouchedBy options C rest) σ σ') :
    (bodyContext m options u f).Agrees T W σ σ' where
  step := h.same (x := ⟨T.stepName, .real⟩) hn hc.step fun ⟨_, _, hx⟩ => hx
  same := by
    intro key v y hy hvisible
    refine h.same hn hy ?_
    rintro ⟨x, hx, htouch⟩
    rcases hvisible with hown | ⟨rfl, q, rfl, hq⟩
    · cases key with
      | «local» name =>
        obtain rfl : .update u = x := htouch.1
        exact hrest.other hx
      | port q =>
        exact hrest.apart x hx q (by rw [Model.writtenBy_update hf]; exact hown) htouch.1
    · exact hrest.earlier x hx q htouch.1 hq

/-- What one modifier touches some modifiers touch. -/
theorem changes_head {x : Modifier} {rest : List Modifier}
    (h : T.Changes (m.Touches options C x) σ σ') :
    T.Changes (m.TouchedBy options C (x :: rest)) σ σ' :=
  h.mono fun _ _ htouch => ⟨x, List.mem_cons_self, htouch⟩

theorem changes_tail {x : Modifier} {rest : List Modifier}
    (h : T.Changes (m.TouchedBy options C rest) σ σ') :
    T.Changes (m.TouchedBy options C (x :: rest)) σ σ' :=
  h.mono fun _ _ => .mono (List.subset_cons_self ..)

end

/-- A modifier has run, and a valuation has been changed in what it touches so that it tracks the
end of the run. The constraints of the modifier hold, whatever is changed by modifiers that leave it
alone. -/
structure Model.Records (m : Model) (options : Options) (A : Arith K) (C : BodyCache)
    (T : SymbolTable) (start : StepStart K) (x : Modifier) (constraints : List Term)
    (W W' : OrderedSet PortId) (ports ports' : PortId → Val K) (σ σ' : Valuation K) : Prop where
  runs : m.runModifier options A C start ports x = some ports'
  changes : T.Changes (m.Touches options C x) σ σ'
  sorted : T.Sorted σ → T.Sorted σ'
  tracks : Tracks m σ' T W' start ports'
  written {q : PortId} : q ∈ W' → q ∈ W ∨ q ∈ m.writtenBy options C x
  holds {rest : List Modifier} {σ'' : Valuation K} : m.LeaveAlone options C W x rest →
    T.Changes (m.TouchedBy options C rest) σ' σ'' → ∀ k ∈ constraints, k.Holds A σ''

/-- The run of an update is recorded. -/
theorem Tracks.records_update {u : UpdateId} {f : UpdateFunction} {r : BodyConstraints}
    (ht : Tracks m σ T t.written start ports) (h : encodeUpdate m options u f t = .ok r t')
    (hT : t'.Extends T) (hn : T.NamesDistinct) (ha : Agreeable m options C T mods)
    (hu : .update u ∈ mods) (hf : C.body? (m.update u).function = some f)
    (hs : start.Fits m options C mods) (he : start.Enters σ T mods)
    (hnew : ∀ q ∈ m.writtenBy options C (.update u), q ∉ t.written) :
    ∃ ports' σ', m.Records options A C T start (.update u) r.constraints t.written t'.written
      ports ports' σ σ' := by
  have hown : m.writtenBy options C (.update u) =
      (bodyContext m options u f).writtenPorts.toList := Model.writtenBy_update hf
  have henters := ht.enters hs he hu hf
  have hproper : (bodyContext m options u f).Proper T t.written :=
    ⟨hn, ha.canonical, ha.sorted hu hf, fun hq => hnew _ (by rw [hown]; exact hq)⟩
  obtain ⟨st', σ', hrun, halter, hrec⟩ := encodeUpdate_recorded (A := A) h hT hproper
    (ha.spares hu _ hf) henters
  have hstays := Context.run_stays (Context.covers_ofBody (ha.spares hu _ hf)) hrun
  have htouch := halter.touches hf
  have halone : T.Changes (m.TouchedBy options C [.update u]) σ σ' := changes_head htouch
  have ht' := ht.changes hn halone (by simpa using hnew)
  refine ⟨fun q => st'.val (.port q), σ',
    { runs := by simp [Model.runModifier, hf, hrun]
      changes := htouch
      sorted := halter.sorted
      tracks := ht'.update h hstays (hstays.sorted henters.sorted) fun q hq x hx =>
        (hrec.closes q hq _ hx).1.symm
      written := fun hq => ?_
      holds := fun hrest hchanges => hrec.holds (hrest.agrees hf ha.canonical hn hchanges) }⟩
  rw [hown]
  exact (encodeUpdate_written h).1 hq

omit [IsStrictOrderedRing K] in
/-- The run of an influence is recorded. -/
theorem Tracks.records_influence {i : InfluenceId} {equation : Term}
    (ht : Tracks m σ T t.written start ports) (h : encodeInfluence m i t = .ok equation t')
    (hT : t'.Extends T) (hn : T.NamesDistinct) (hc : T.Canonical m)
    (hs : start.Fits m options C mods)
    (hnew : ∀ q ∈ m.writtenBy options C (.influence i), q ∉ t.written) :
    ∃ ports' σ', m.Records options A C T start (.influence i) [equation] t.written t'.written
      ports ports' σ σ' := by
  obtain ⟨v, hv, -⟩ := ht.influence_means (A := A) h hT hs hc
  have hget : T.get? (.port (m.influence i).target) .current =
      some (.var (m.postStep (m.influence i).target)) := by
    obtain ⟨target, -, htarget, -, -⟩ := encodeInfluence_inside h hT
    obtain rfl := hc.postStep htarget
    exact htarget
  -- the post-step variable of the target gets the value of the source
  obtain ⟨σ', hvalue, hchange, hsorted⟩ := exists_override_one hn hget (Val.sort_of_as? hv) σ
  have htouch : T.Changes (m.Touches options C (.influence i)) σ σ' := by
    refine hchange.mono ?_
    rintro _ _ ⟨rfl, rfl⟩
    exact ⟨List.mem_cons_self, by simp [Version.prior]⟩
  have halone : T.Changes (m.TouchedBy options C [.influence i]) σ σ' := changes_head htouch
  have ht' := ht.changes hn halone (by simpa using hnew)
  refine ⟨Function.update ports (m.influence i).target v, σ',
    { runs := by simp [Model.runModifier, hv]
      changes := htouch
      sorted := hsorted
      tracks := ht'.influence h (Val.sort_of_as? hv) fun x hx => ?_
      written := fun hq => ((encodeInfluence_written h).1 hq).imp_right List.mem_singleton.2
      holds := fun hrest hchanges => List.forall_mem_singleton.2 ?_ }⟩
  · obtain rfl := Term.var.inj (hc.postStep hx)
    exact hvalue.symm
  · have ht'' := ht'.changes hn hchanges hrest.earlier
    obtain ⟨w, hw, hhold⟩ := ht''.influence_means (A := A) h hT hs hc
    obtain rfl := Option.some.inj (hv.symm.trans hw)
    refine hhold.2 ((hchanges.same hn hget ?_).trans hvalue)
    rintro ⟨y, hy, hq, -⟩
    exact hrest.apart y hy _ List.mem_cons_self hq

/-- Some modifiers have run, and a valuation has been changed in what they touch so that it
satisfies their constraints and tracks the end of the run. -/
structure Model.RecordsAll (m : Model) (options : Options) (A : Arith K) (C : BodyCache)
    (T : SymbolTable) (start : StepStart K) (xs : List ModifierConstraints)
    (W : OrderedSet PortId) (ports ports' : PortId → Val K) (σ σ' : Valuation K) : Prop where
  runs : m.runModifiers options A C start (xs.map (·.modifier)) ports = some ports'
  changes : T.Changes (m.TouchedBy options C (xs.map (·.modifier))) σ σ'
  sorted : T.Sorted σ → T.Sorted σ'
  holds : ∀ x ∈ xs, ∀ k ∈ x.constraints, k.Holds A σ'
  tracks : Tracks m σ' T W start ports'

omit [IsStrictOrderedRing K] in
/-- A modifier is recorded before ones that leave it alone. -/
theorem Model.Records.cons {x : ModifierConstraints} {W₁ W' : OrderedSet PortId}
    {ports₁ ports' : PortId → Val K} {σ₁ : Valuation K}
    (hx : m.Records options A C T start x.modifier x.constraints W W₁ ports ports₁ σ σ₁)
    (hrest : m.LeaveAlone options C W x.modifier (xs.map (·.modifier)))
    (hxs : m.RecordsAll options A C T start xs W' ports₁ ports' σ₁ σ') :
    m.RecordsAll options A C T start (x :: xs) W' ports ports' σ σ' where
  runs := by rw [List.map_cons, Model.runModifiers_cons hx.runs, hxs.runs]
  changes := (changes_head hx.changes).trans (changes_tail hxs.changes)
  sorted := fun hσ => hxs.sorted (hx.sorted hσ)
  holds := List.forall_mem_cons.2 ⟨hx.holds hrest hxs.changes, hxs.holds⟩
  tracks := hxs.tracks

omit [IsStrictOrderedRing K] in
/-- Modifiers that leave a recorded one alone write ports that have not been written so far. -/
theorem Model.Records.unwritten {x : Modifier} {rest : List Modifier} {constraints : List Term}
    {W₁ : OrderedSet PortId} {ports₁ : PortId → Val K} {σ₁ : Valuation K}
    (hx : m.Records options A C T start x constraints W W₁ ports ports₁ σ σ₁)
    (hrest : m.LeaveAlone options C W x rest) :
    ∀ y ∈ rest, ∀ q ∈ m.writtenBy options C y, q ∉ W₁ := fun y hy q hq hw =>
  (hx.written hw).elim (hrest.earlier y hy q hq) fun hown => hrest.apart y hy q hown hq

omit [IsStrictOrderedRing K] in
/-- A recorded modifier does not touch what the step starts from. -/
theorem Model.Records.enters {x : Modifier} {constraints : List Term} {W₁ : OrderedSet PortId}
    {ports₁ : PortId → Val K} {σ₁ : Valuation K}
    (hx : m.Records options A C T start x constraints W W₁ ports ports₁ σ σ₁) (hc : T.Canonical m)
    (hn : T.NamesDistinct) (he : start.Enters σ T mods) : start.Enters σ₁ T mods := by
  have halone : T.Changes (m.TouchedBy options C [x]) σ σ₁ := changes_head hx.changes
  exact he.changes hc hn halone

/-- **Every run is recorded**: the run of some modifiers from a tracked start ends, and the
valuation can be changed in what they touch so that it satisfies their constraints and tracks
the end. -/
theorem Encodes.recorded (h : Encodes m options C t xs t') (hT : t'.Extends T)
    (hn : T.NamesDistinct) (hmods : xs.map (·.modifier) ⊆ mods)
    (ha : Agreeable m options C T mods) (hnodup : (xs.map (·.modifier)).Nodup)
    (hapart : m.Apart options C (xs.map (·.modifier)))
    (hnew : ∀ x ∈ xs.map (·.modifier), ∀ q ∈ m.writtenBy options C x, q ∉ t.written)
    (hs : start.Fits m options C mods) (he : start.Enters σ T mods)
    (ht : Tracks m σ T t.written start ports) :
    ∃ ports' σ', m.RecordsAll options A C T start xs t'.written ports ports' σ σ' := by
  induction h generalizing ports σ with
  | nil => exact ⟨ports, σ, rfl, .refl σ, fun hσ => hσ, by simp, ht⟩
  | update hf hr hxs ih =>
    rw [List.map_cons, List.cons_subset] at hmods
    rw [List.map_cons, List.nodup_cons] at hnodup
    rw [List.map_cons, Model.Apart, List.pairwise_cons] at hapart
    rw [List.map_cons, List.forall_mem_cons] at hnew
    have hrest : m.LeaveAlone options C _ _ _ := ⟨hnodup.1, hapart.1, hnew.2⟩
    obtain ⟨ports₁, σ₁, hx⟩ := ht.records_update (A := A) hr (hxs.extends.trans hT) hn ha hmods.1 hf
      hs he hnew.1
    obtain ⟨ports', σ', hall⟩ := ih hT hmods.2 hnodup.2 hapart.2 (hx.unwritten hrest)
      (hx.enters ha.canonical hn he) hx.tracks
    exact ⟨ports', σ', hx.cons hrest hall⟩
  | influence hr hxs ih =>
    rw [List.map_cons, List.cons_subset] at hmods
    rw [List.map_cons, List.nodup_cons] at hnodup
    rw [List.map_cons, Model.Apart, List.pairwise_cons] at hapart
    rw [List.map_cons, List.forall_mem_cons] at hnew
    have hrest : m.LeaveAlone options C _ _ _ := ⟨hnodup.1, hapart.1, hnew.2⟩
    obtain ⟨ports₁, σ₁, hx⟩ := ht.records_influence (A := A) hr (hxs.extends.trans hT) hn
      ha.canonical hs hnew.1
    obtain ⟨ports', σ', hall⟩ := ih hT hmods.2 hnodup.2 hapart.2 (hx.unwritten hrest)
      (hx.enters ha.canonical hn he) hx.tracks
    exact ⟨ports', σ', hx.cons hrest hall⟩

/-! ### Scripts -/

theorem passThroughs_eq (name : String) : ∀ (texts : List String) (script : Script),
    texts.foldl (fun script text => script.passThrough (name ++ ": " ++ text)) script =
      { script with carried := script.carried ++ texts.map fun text => name ++ ": " ++ text }
  | [], script => by simp
  | text :: texts, script => by
    rw [List.foldl_cons, passThroughs_eq name texts]
    simp [Script.passThrough]

/-- The script of a step has the equation of its size and the constraints of its modifiers, and
carries what was passed through. -/
theorem StepConstraints.script_eq (s : StepConstraints) : s.script =
    ⟨s.stepSize.toList ++ s.modifiers.flatMap (·.constraints),
      s.modifiers.flatMap fun x => x.passthrough.map fun text => x.name ++ ": " ++ text⟩ := by
  have hfold : ∀ (xs : List ModifierConstraints) (script : Script),
      xs.foldl (fun script m =>
        m.passthrough.foldl (fun script text => script.passThrough (m.name ++ ": " ++ text))
          (script.addConstraints m.constraints)) script =
        ⟨script.constraints ++ xs.flatMap (·.constraints), script.carried ++
          xs.flatMap fun x => x.passthrough.map fun text => x.name ++ ": " ++ text⟩ := by
    intro xs
    induction xs with
    | nil => simp
    | cons x xs ih =>
      intro script
      rw [List.foldl_cons, passThroughs_eq, ih]
      simp [Script.addConstraints]
  rw [script, scriptOf, hfold]
  simp [Script.addConstraints]

theorem StepConstraints.passthrough_eq_nil {s : StepConstraints} (h : s.script.carried = []) :
    ∀ x ∈ s.modifiers, x.passthrough = [] := by
  rw [script_eq] at h
  simpa [List.flatMap_eq_nil_iff] using h

/-! ### Steps -/

namespace Model

variable {e : EntityId} {d : Option Rat} {s : StepConstraints}

/-- What the modifiers of a step are like. -/
theorem Step.agreeable (h : m.Step options e d C s) (hm : m.WellFormed)
    (hspare : ∀ x ∈ s.modifiers, m.SparesStep options C x.modifier) :
    Agreeable m options C s.table (s.modifiers.map (·.modifier)) := by
  obtain ⟨t, hseed, henc⟩ := h.encodes
  obtain ⟨hc, htidy, -⟩ := seeded hseed
  exact ⟨henc.canonical hc, henc.sortedTables hc (nodup_of_opens hm h.opens) fun x _ => htidy x,
    fun hx => List.forall_mem_map.2 hspare _ hx⟩

omit [LinearOrder K] [IsStrictOrderedRing K] in
/-- A valuation can be changed so that it gives the time step and the locals that are read first the
values of a start. -/
theorem Step.exists_entering (h : m.Step options e d C s)
    (ha : Agreeable m options C s.table (s.modifiers.map (·.modifier)))
    (hn : s.table.NamesDistinct) (hs : start.Fits m options C (s.modifiers.map (·.modifier)))
    (hσ : s.table.Sorted σ) :
    ∃ σ', s.table.Sorted σ' ∧ start.Enters σ' s.table (s.modifiers.map (·.modifier)) := by
  obtain ⟨t, hseed, henc⟩ := h.encodes
  obtain ⟨value, hvalue⟩ : ∃ value : SymbolKey → Val K, value = fun key =>
      match key with
      | .local name (.update u) => start.locals u name
      | _ => .real start.dt := ⟨_, rfl⟩
  obtain ⟨D, hD⟩ : ∃ D : SymbolKey → Version → Prop, D = fun key v => key = .step ∨
      ∃ name u, key = .local name (.update u) ∧ v = .current ∧
        .update u ∈ s.modifiers.map (·.modifier) := ⟨_, rfl⟩
  refine ⟨s.table.override D value σ, fun key v x hx => override_sorted hn ?_ hx (hσ hx), ?_, ?_⟩
  · subst hD hvalue
    rintro _ v x hx (rfl | ⟨name, u, rfl, rfl, hu⟩)
    · obtain rfl : x = ⟨s.table.stepName, .real⟩ := Term.var.inj (ha.canonical.fits hx)
      rfl
    · obtain ⟨f, hf⟩ := henc.body hu
      have hsorted := ha.sorted hu hf
      exact (hs.locals hu hf name).trans (@hsorted (.local name) _ _ hx).symm
  · subst hD hvalue
    exact override_of_mem (x := ⟨s.table.stepName, .real⟩) hn ha.canonical.step (.inl rfl)
  · intro u name y hu hy
    have hmem : D (.local name (.update u)) .current := by
      subst hD
      exact .inr ⟨name, u, rfl, rfl, hu⟩
    rw [override_of_mem hn hy hmem, hvalue]

omit [IsStrictOrderedRing K] in
/-- The equation of the time step. -/
theorem holds_stepEquation {table : SymbolTable} {q : Rat} {equation : Term}
    (h : stepEquation table q = .ok equation) :
    equation.Holds A σ ↔ σ table.stepName = .real q :=
  Term.holds_mkEq (checked_eq_ok.1 h)

omit [IsStrictOrderedRing K] in
theorem Step.holds_size (h : m.Step options e d C s) :
    (∀ k ∈ s.stepSize.toList, k.Holds A σ) ↔ ∀ q, d = some q → σ s.table.stepName = .real q := by
  have hsize := h.size
  cases d with
  | none =>
    rw [show s.stepSize = none from hsize]
    simp
  | some q =>
    obtain ⟨equation, hequation, hsome⟩ := hsize
    rw [hsome]
    simpa using holds_stepEquation hequation

/-- Whatever a step starts from, its run ends and is recorded by a solution of its script. The ports
start with their values before the step, and the time step is the size of the step if it has one. -/
def StepSound (m : Model) (options : Options) (A : Arith K) (C : BodyCache) (d : Option Rat)
    (s : StepConstraints) : Prop :=
  ∀ (σ : Valuation K) (start : StepStart K), s.table.Sorted σ →
    start.Fits m options C (s.modifiers.map (·.modifier)) → (∀ q : Rat, d = some q → start.dt = q) →
      ∃ ports σ',
        m.runModifiers options A C start (s.modifiers.map (·.modifier)) start.ports = some ports ∧
          s.table.Sorted σ' ∧ start.Enters σ' s.table (s.modifiers.map (·.modifier)) ∧
          (∀ k ∈ s.script.constraints, k.Holds A σ') ∧
          ∀ x ∈ s.modifiers, ∀ q ∈ m.writtenBy options C x.modifier,
            σ' (m.postStep q).name = ports q

/-- Every solution of the script of a step gives the post-step variables of the ports that are
written the values with which its run ends. -/
def StepExact (m : Model) (options : Options) (A : Arith K) (C : BodyCache)
    (s : StepConstraints) : Prop :=
  ∀ (σ : Valuation K) (start : StepStart K),
    start.Fits m options C (s.modifiers.map (·.modifier)) →
    start.Enters σ s.table (s.modifiers.map (·.modifier)) →
    (∀ k ∈ s.script.constraints, k.Holds A σ) →
      ∃ ports,
        m.runModifiers options A C start (s.modifiers.map (·.modifier)) start.ports = some ports ∧
          ∀ x ∈ s.modifiers, ∀ q ∈ m.writtenBy options C x.modifier,
            σ (m.postStep q).name = ports q

/-- **A step agrees with its run**, if nothing is passed through and no two modifiers write one
port. -/
theorem step_agrees_with_run (A : Arith K) (hm : m.Built) {cache cache' : BodyCache}
    (h : m.step options e d cache = .ok s cache') (hcarried : s.script.carried = [])
    (hapart : m.Apart options cache' (s.modifiers.map (·.modifier)))
    (hspare : ∀ x ∈ s.modifiers, m.SparesStep options cache' x.modifier)
    (hname : s.table.NamesDistinct) :
    m.StepSound options A cache' d s ∧ m.StepExact options A cache' s := by
  have hstep := step_ok hm.wellFormed h
  have ha := hstep.agreeable hm.wellFormed hspare
  obtain ⟨t, hseed, henc⟩ := hstep.encodes
  obtain ⟨-, -, hwritten⟩ := seeded hseed
  have hstart : ∀ {σ : Valuation K} {start : StepStart K},
      start.Fits m options cache' (s.modifiers.map (·.modifier)) →
        Tracks m σ s.table t.written start start.ports := fun hs =>
    ⟨hs.ports, fun hq => by rw [hwritten] at hq; exact absurd hq (OrderedSet.not_mem_empty _),
      fun _ => rfl⟩
  have hends : ∀ {σ : Valuation K} {start : StepStart K} {ports : PortId → Val K},
      Tracks m σ s.table s.table.written start ports → ∀ x ∈ s.modifiers,
        ∀ q ∈ m.writtenBy options cache' x.modifier, σ (m.postStep q).name = ports q :=
    fun ht x hx q hq => by
      obtain ⟨hin, term, hterm⟩ := henc.present (List.mem_map_of_mem hx) hq
      obtain rfl := ha.canonical.postStep hterm
      exact (ht.written hin hterm).symm
  have hconstraints : ∀ {σ : Valuation K}, (∀ k ∈ s.script.constraints, k.Holds A σ) ↔
      (∀ q : Rat, d = some q → σ s.table.stepName = .real q) ∧
        ∀ x ∈ s.modifiers, ∀ k ∈ x.constraints, k.Holds A σ := by
    intro σ
    rw [s.script_eq, List.forall_mem_append, hstep.holds_size]
    simp only [List.mem_flatMap, forall_exists_index, and_imp]
    exact and_congr_right fun _ => ⟨fun h x hx k hk => h k x hx hk, fun h k x hx hk => h x hx k hk⟩
  constructor
  · intro σ start hσ hs hdt
    obtain ⟨σ₁, hσ₁, he⟩ := hstep.exists_entering ha hname hs hσ
    obtain ⟨ports, σ₂, hrun, hchanges, hsorted, hold, ht⟩ := henc.recorded (A := A) .rfl hname
      (List.Subset.refl _) ha (nodup_of_opens hm.wellFormed hstep.opens) hapart
      (fun x _ q _ => by rw [hwritten]; exact OrderedSet.not_mem_empty q) hs he (hstart hs)
    have he₂ := he.changes ha.canonical hname hchanges
    refine ⟨ports, σ₂, hrun, hsorted hσ₁, he₂, hconstraints.2 ⟨fun q hq => ?_, hold⟩, hends ht⟩
    rw [he₂.dt, hdt q hq]
  · intro σ start hs he hold
    obtain ⟨ports, hrun, ht⟩ := henc.exact .rfl (List.Subset.refl _) ha
      (StepConstraints.passthrough_eq_nil hcarried) hs he (hconstraints.1 hold).2 (hstart hs)
    exact ⟨ports, hrun, hends ht⟩

/-- A step of the tank agrees with its run: it is filled and measured, then the gauge is watched. -/
theorem tank_agrees_with_run : ∃ m e s cache, tankDefinition.build = .ok (m, e) ∧
    m.step {} e (some 1) {} = .ok s cache ∧
      s.modifiers.map (·.modifier) = [.update ⟨1⟩, .influence ⟨0⟩, .update ⟨0⟩] ∧
      m.StepSound {} (default : Arith ℚ) cache (some 1) s ∧
      m.StepExact {} (default : Arith ℚ) cache s := by
  obtain ⟨m, e, s, cache, hbuild, hstep, htank⟩ := tank_step
  obtain ⟨hsound, hexact⟩ := step_agrees_with_run (default : Arith ℚ)
    (ModelDefinition.build_built hbuild).1 hstep htank.carried htank.apart htank.spares htank.names
  exact ⟨m, e, s, cache, hbuild, hstep, htank.listed, hsound, hexact⟩

end Model

end HybridStep
