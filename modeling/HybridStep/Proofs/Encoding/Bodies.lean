import HybridStep.Proofs.Encoding.Paths

/-! # Meaning of encoded bodies

The constraints of a whole body, for a table that holds its handles. A run starts from a store that
a valuation *enters*: ports that an earlier modifier has written have the values of their post-step
variables, all other ports their values before the step, and locals the values of their unversioned
names. -/

namespace HybridStep

/-- A value as one of a sort, if it is one. -/
def Value.val? {K : Type} [Field K] : Value → TermSort → Option (Val K)
  | .int n, .int => some (.int n.val)
  | .int n, .real => some (.real n.val)
  | .real q, .real => some (.real q)
  | .bool b, .bool => some (.bool b)
  | .tag t, .enum e => Val.ofText? e t
  | _, _ => none

/-- The value of a port before the step, as one of its sort. -/
def Model.priorValue? {K : Type} [Field K] (m : Model) (p : PortId) : Option (Val K) :=
  (m.port p).value.val? (m.sortOfPort p)

namespace Context

variable {c : Context} {T : SymbolTable} {W : OrderedSet PortId} {K : Type} [Field K]

/-- A store from which a body can run: everything has a value of its sort, and the ports that no
earlier modifier has written still have their values before the step. -/
structure Starts (c : Context) (W : OrderedSet PortId) (st : Store K) : Prop where
  sorted : c.SortedStore st
  prior {q : PortId} {v : Val K} :
    q ∉ W → c.model.priorValue? q = some v → st.val (.port q) = v

/-- A store from which a body can run under a valuation. -/
structure Enters (c : Context) (σ : Valuation K) (T : SymbolTable) (W : OrderedSet PortId)
    (st : Store K) : Prop extends c.Starts W st where
  dt : σ T.stepName = .real st.dt
  written {q : PortId} {x : Variable} :
    q ∈ W → T.get? (.port q) .current = some (.var x) → st.val (.port q) = σ x.name
  locals {name : String} {x : Variable} :
    T.get? (.local name c.modifier) .current = some (.var x) → st.val (.local name) = σ x.name

variable {σ : Valuation K} {st : Store K}

/-! ### Entering -/

/-- The handles that hold what a body finds: the post-step variables of the ports that are written,
and the unversioned names of locals. -/
def EntryHandle (W : OrderedSet PortId) (key : VarKey) (v : Version) : Prop :=
  v = .current ∧ ∀ q, key = .port q → q ∈ W

theorem Alters.enters {σ' : Valuation K} (h : c.Alters T (fun _ => 0) σ σ')
    (hT : c.Proper T W) (he : c.Enters σ T W st) : c.Enters σ' T W st := by
  refine { he with dt := (h.same_step hT).trans he.dt, written := ?_, locals := ?_ }
  · intro q x hq hx
    rw [he.written hq hx]
    refine (h.same_handle hT (.port q) hx ?_).symm
    rintro ⟨hown, -⟩
    exact hT.unwritten hown hq
  · intro name x hx
    rw [he.locals hx]
    refine (h.same_handle hT (.local name) hx ?_).symm
    rintro ⟨-, ⟨j, hj, -⟩ | ⟨-, q, hq⟩⟩
    · cases hj
    · cases hq

/-- Every valuation can be changed in the time step and in the handles of the ports and locals of a
body so that it enters a given store. -/
theorem exists_entering (hT : c.Proper T W) (hσ : T.Sorted σ) (hst : c.Starts W st) :
    ∃ σ', T.Sorted σ' ∧ c.Enters σ' T W st ∧
      T.Changes (fun key v => key = .step ∨ c.Handles (EntryHandle W) key v) σ σ' := by
  have hsort : ∀ {key v x}, T.get? key v = some (.var x) →
      key = .step ∨ c.Handles (EntryHandle W) key v → (st.valueOf key).sort = x.sort := by
    rintro key v x hx (rfl | hD)
    · obtain rfl : x = ⟨T.stepName, .real⟩ := Term.var.inj (hT.canonical.fits hx)
      rfl
    · exact hst.sorted.valueOf hT.sorted hx hD
  have hentry : ∀ key {v x}, T.get? (c.symbolKey key) v = some (.var x) → EntryHandle W key v →
      st.val key = T.override (fun key v => key = .step ∨ c.Handles (EntryHandle W) key v)
        st.valueOf σ x.name := fun key v x hx hD => by
    rw [T.override_of_mem hT.distinct hx (.inr (handles_symbolKey.2 hD)), valueOf_symbolKey]
  refine ⟨_, fun _ _ _ hx => T.override_sorted hT.distinct hsort hx (hσ hx),
    { hst with dt := ?_, written := ?_, locals := ?_ }, T.changes_override⟩
  · exact T.override_of_mem (x := ⟨T.stepName, .real⟩) hT.distinct hT.canonical.step (.inl rfl)
  · intro q x hq hx
    refine hentry (.port q) hx ⟨rfl, ?_⟩
    rintro _ ⟨⟩
    exact hq
  · intro name x hx
    refine hentry (.local name) hx ⟨rfl, ?_⟩
    rintro _ ⟨⟩

/-! ### Prior values -/

variable [LinearOrder K] {A : Arith K}

theorem constant?_denotes {y : Value} {s : TermSort} {t : Term} (h : y.constant? s = some t) :
    ∃ v : Val K, y.val? s = some v ∧ t.Denotes A σ v := by
  unfold Value.constant? at h
  split at h
  · cases h
    exact ⟨_, rfl, Term.denotes_int _⟩
  · next n =>
    cases h
    exact ⟨.real n.val, rfl, by simpa using Term.denotes_real (A := A) (σ := σ) n.val⟩
  · cases h
    exact ⟨_, rfl, Term.denotes_real _⟩
  · cases h
    exact ⟨_, rfl, Term.denotes_bool _⟩
  · obtain ⟨i, hi, rfl⟩ := Option.map_eq_some_iff.1 h
    exact indexOf?_denotes hi
  · cases h

/-- A store that a valuation enters is read by the handles with which the body starts. -/
theorem Enters.reads (h : c.Enters σ T W st) (hc : T.Canonical c.model) (hT : c.SortedTable T) :
    c.Reads A σ T W (fun _ => 0) st := by
  refine ⟨h.dt, fun {key t} hg => ?_⟩
  have hsort : (st.val key).sort = t.sort := (h.sorted.val key).trans (hT hg).symm
  cases key with
  | «local» name =>
    obtain ⟨sort, rfl⟩ := hc.fits hg
    exact ⟨(h.locals hg).symm, hsort⟩
  | port q =>
    simp only [readVersion, SymbolTable.entryVersion] at hg
    split_ifs at hg with hW
    · rcases hc.var_or_prior hg with ⟨x, rfl⟩ | ⟨-, hp, -⟩
      · exact ⟨(h.written hW hg).symm, hsort⟩
      · cases hp
    · have hterm : SymbolTable.priorTerm c.model q = .ok t := by
        have hf : SymbolTable.portTerm c.model q .prior = .ok t := hc.fits hg
        rwa [SymbolTable.portTerm, if_pos rfl] at hf
      obtain ⟨v, hv, hd⟩ := constant?_denotes (A := A) (σ := σ) (SymbolTable.priorTerm_ok hterm)
      rw [h.prior hW hv]
      exact hd

/-! ### Ports of a body -/

omit [Field K] [LinearOrder K] in
theorem mem_portsWritten {body : List Node} {q : PortId} : q ∈ c.portsWritten body ↔
    .port q ∈ Node.writesOfList c.key? body ∨
      c.target = some q ∧ Node.hasReturnInList body = true := by
  have hassigned : q ∈ OrderedSet.ofList ((Node.writesOfList c.key? body).filterMap portOfKey?) ↔
      .port q ∈ Node.writesOfList c.key? body := by
    rw [OrderedSet.mem_ofList, List.mem_filterMap]
    constructor
    · rintro ⟨key, hkey, hq⟩
      cases key with
      | port p => cases hq; exact hkey
      | «local» name => cases hq
    · exact fun h => ⟨_, h, rfl⟩
  unfold portsWritten
  simp only
  split
  · next target ht =>
    split
    · next hret => rw [OrderedSet.mem_insert, hassigned, ht, hret]; simp [eq_comm]
    · next hret => rw [hassigned]; simp [hret]
  · next ht => rw [hassigned, ht]; simp

/-- The assignments of a body leave the time step alone. -/
def SparesStepIn (c : Context) (body : List Node) : Prop :=
  Node.writesOfList (fun target => if c.isStep target then some () else none) body = []

instance (body : List Node) : Decidable (c.SparesStepIn body) :=
  inferInstanceAs (Decidable (_ = []))

omit [Field K] [LinearOrder K] in
theorem owns_ofBody (body : List Node) : (c.forBody body).Owns (Flow.ofBody body) := by
  refine Flow.all_ofBody (fun key hk => ?_) fun hret q hq => mem_portsWritten.2 (.inr ⟨hq, hret⟩)
  cases key with
  | port q => exact mem_portsWritten.2 (.inl hk)
  | «local» name => trivial

omit [Field K] [LinearOrder K] in
theorem covers_ofBody {body : List Node} (h : c.SparesStepIn body) :
    (c.forBody body).Covers (Flow.ofBody body) := by
  have hstep : (Flow.ofBody body).All (fun n =>
      ∀ k ∈ n.writes fun target => if c.isStep target then some () else none, False) True :=
    Flow.all_ofBody (by rw [h]; simp) fun _ => trivial
  refine (hstep.and (c.owns_ofBody body)).mono (fun n hn => ⟨?_, hn.2⟩) fun hR => hR.2
  exact List.eq_nil_iff_forall_not_mem.2 hn.1

/-- What a run leaves as it was: the ports that the body does not write. -/
structure Stays (c : Context) (st st' : Store K) : Prop where
  frame {q : PortId} : q ∉ c.writtenPorts → st'.val (.port q) = st.val (.port q)
  sorted : c.SortedStore st → c.SortedStore st'

omit [Field K] [LinearOrder K] in
theorem Writes.stays {st' : Store K} {keys : List VarKey} (h : c.Writes keys st st')
    (hk : ∀ key ∈ keys, c.Own key) : c.Stays st st' :=
  ⟨fun hq => h.frame fun hmem => hq (hk _ hmem), h.sorted⟩

omit [Field K] [LinearOrder K] in
theorem Stays.trans {st' st'' : Store K} (h : c.Stays st st') (h' : c.Stays st' st'') :
    c.Stays st st'' :=
  ⟨fun hq => (h'.frame hq).trans (h.frame hq), fun hs => h'.sorted (h.sorted hs)⟩

theorem runFlow_stays : (fl : Flow) → ∀ {st st' : Store K}, c.Covers fl →
    c.runFlow A st fl = some st' → c.Stays st st'
  | .done, st, st', _, h => by
    obtain rfl := Option.some.inj h
    exact ⟨fun _ => rfl, fun hs => hs⟩
  | .step n rest, st, st', hcov, h => by
    obtain ⟨st₁, hact, h⟩ := Option.bind_eq_some_iff.1 h
    exact ((act_writes hact).stays hcov.1.2).trans (runFlow_stays rest hcov.2 h)
  | .ret value, st, st', hcov, h => by
    obtain ⟨target, htarget, -⟩ := Option.bind_eq_some_iff.1 h
    refine (finish_writes htarget h).stays fun key hk => ?_
    rw [List.mem_singleton.1 hk]
    exact hcov target htarget
  | .fork test whole yes no, st, st', hcov, h => by
    obtain ⟨b, -, h⟩ := Option.bind_eq_some_iff.1 h
    cases b
    · exact runFlow_stays no hcov.2 h
    · exact runFlow_stays yes hcov.1 h

theorem run_stays {body : List Node} {st' : Store K} (hcov : c.Covers (Flow.ofBody body))
    (h : c.run A st body = some st') : c.Stays st st' :=
  runFlow_stays _ hcov ((runFlow_ofBody st body).trans h)

/-! ### Post-step variables -/

omit [Field K] [LinearOrder K] in
theorem closePorts_present {s : Scope} : ∀ {ports : List PortId} {p p' : Progress}
    {cs : List Term}, c.closePorts s ports p = .ok cs p' →
      ∀ q ∈ ports, ∃ t, p'.table.get? (.port q) .current = some t
  | [], _, _, _, _ => by simp
  | q :: ports, p, p', cs, h => by
    obtain ⟨current, q1, latest, q2, first, others, hcurrent, hlatest, -, hothers, -⟩ :=
      closePorts_ok h
    refine List.forall_mem_cons.2 ⟨⟨current, ?_⟩, closePorts_present hothers⟩
    exact (adds_closePorts s ports hothers).table.kept
      ((adds_readKey s _ hlatest).table.kept (port_ok hcurrent))

omit [Field K] [LinearOrder K] in
theorem returned_present {s : Scope} {p p' : Progress} {cs : List Term} {value : Option Node}
    (h : c.returned s value p = .ok cs p') {target : PortId} (htarget : c.target = some target) :
    ∃ t, p'.table.get? (.port target) .current = some t := by
  obtain ⟨_, n, handle, q, o, htarget', rfl, hhandle, ho, -⟩ := returned_ok h
  obtain rfl := Option.some.inj (htarget.symm.trans htarget')
  exact ⟨handle, (adds_expr s n _ ho).table.kept (port_ok hhandle)⟩

omit [Field K] [LinearOrder K] in
/-- Every path makes the post-step variables of the ports that the body writes. -/
theorem paths_present : (fl : Flow) → ∀ {s : Scope} {p p' : Progress} {cs : List Term},
    c.paths fl s p = .ok cs p' → ∀ q ∈ c.writtenPorts.toList,
      ∃ t, p'.table.get? (.port q) .current = some t
  | .done, _, _, _, _, h => closePorts_present h
  | .step n rest, s, p, p', cs, h => by
    obtain ⟨_, _, _, -, hthere, -⟩ := step_ok h
    exact paths_present rest hthere
  | .ret value, s, p, p', cs, h => by
    obtain ⟨closed, q, written, hclosed, hwritten, -⟩ := ret_ok h
    intro port hport
    by_cases he : some port = c.target
    · exact returned_present hwritten he.symm
    · obtain ⟨t, ht⟩ := closePorts_present hclosed port
        (List.mem_filter.2 ⟨hport, by simpa using he⟩)
      exact ⟨t, (adds_returned s value hwritten).table.kept ht⟩
  | .fork test whole yes no, s, p, p', cs, h => by
    obtain ⟨_, _, _, _, _, _, -, -, hno, -, -⟩ := fork_ok h
    exact paths_present no hno

/-! ### Bodies -/

variable [IsStrictOrderedRing K] {body : List Node} {p p' : Progress} {cs : List Term}

theorem sequence_exact (hcov : c.Covers (Flow.ofBody body)) (hc : T.Canonical c.model)
    (hT : c.SortedTable T) (h : c.sequence body .empty p = .ok cs p') (hin : Inside T W p')
    (he : c.Enters σ T W st) (hpass : p'.passed.toList = []) (hold : ∀ t ∈ cs, t.Holds A σ) :
    ∃ st', c.run A st body = some st' ∧ Closes A σ T c.writtenPorts.toList st' := by
  rw [← runFlow_ofBody]
  refine paths_exact hT _ h hin (at_scope _ _) hcov ?_ hpass hold
  have hprev : (c.scope (Flow.ofBody body).straight .empty).previous = fun _ => 0 := by
    funext key
    rw [previous_scope]
    rfl
  rw [hprev]
  exact he.reads hc hT

theorem sequence_sound (hcov : c.Covers (Flow.ofBody body)) (hT : c.Proper T W)
    (h : c.sequence body .empty p = .ok cs p') (hin : Inside T W p') (he : c.Enters σ T W st) :
    ∃ st' σ', c.run A st body = some st' ∧ c.Alters T (fun _ => 0) σ σ' ∧
      c.Recorded A T W σ' st' cs := by
  have hprev : (c.scope (Flow.ofBody body).straight .empty).previous = fun _ => 0 := by
    funext key
    rw [previous_scope]
    rfl
  rw [← runFlow_ofBody, ← hprev]
  refine paths_sound hT _ h hin (at_scope _ _) hcov ?_ he.sorted ?_
  · rw [hprev]
    exact fun q hq => absurd rfl hq
  · rw [hprev]
    exact he.reads hT.canonical hT.sorted

end Context

end HybridStep
