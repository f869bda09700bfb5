import HybridStep.Proofs.Encoding.Bodies
import HybridStep.Proofs.Model.Described

/-! # Meaning of encoded updates

An update is encoded on a table that earlier modifiers have left. From such a table on, its
constraints are sound and exact: whatever a run starts from, it extends to a solution of the
constraints; and if nothing is passed through, the post-step variables of the ports that the body
writes have in every solution the values with which the run ends. -/

namespace HybridStep

open SymbolTable (GrowsBy PortHandle)

/-- The variable of a port after the step. -/
def Model.postStep (m : Model) (q : PortId) : Variable :=
  ⟨symbolName (m.port q).name .current q.text, m.sortOfPort q⟩

/-- The context in which the body of an update is encoded. -/
def bodyContext (m : Model) (options : Options) (u : UpdateId) (f : UpdateFunction) : Context :=
  (updateContext m options u f).forBody f.body

variable {m : Model} {options : Options} {u : UpdateId} {f : UpdateFunction}
variable {t t' T : SymbolTable} {x : Modifier}

/-! ### What modifiers add to a table -/

@[simp] theorem SymbolTable.get?_markAll (ports : List PortId) (t : SymbolTable)
    (key : SymbolKey) (v : Version) :
    (ports.foldl SymbolTable.markWritten t).get? key v = t.get? key v := by
  induction ports generalizing t with
  | nil => rfl
  | cons q ports ih => rw [List.foldl_cons, ih, get?_markWritten]

@[simp] theorem SymbolTable.stepName_markAll (ports : List PortId) (t : SymbolTable) :
    (ports.foldl SymbolTable.markWritten t).stepName = t.stepName := by
  induction ports generalizing t with
  | nil => rfl
  | cons q ports ih => rw [List.foldl_cons, ih, stepName_markWritten]

theorem SymbolTable.mem_written_markAll {ports : List PortId} {t : SymbolTable} {q : PortId} :
    q ∈ (ports.foldl SymbolTable.markWritten t).written ↔ q ∈ t.written ∨ q ∈ ports := by
  induction ports generalizing t with
  | nil => simp
  | cons p ports ih =>
    rw [List.foldl_cons, ih, markWritten, OrderedSet.mem_insert, List.mem_cons, or_assoc]

theorem SymbolTable.Canonical.markAll (h : t.Canonical m) (ports : List PortId) :
    (ports.foldl SymbolTable.markWritten t).Canonical m := by
  induction ports generalizing t with
  | nil => exact h
  | cons q ports ih => exact ih (h.markWritten q)

/-- An encoded update is the encoding of its body, with the written ports noted afterwards. -/
theorem encodeUpdate_ok {r : BodyConstraints} (h : encodeUpdate m options u f t = .ok r t') :
    ∃ q, (bodyContext m options u f).sequence f.body .empty { table := t } = .ok r.constraints q ∧
      r.passthrough = q.passed.toList ∧
      t' = (bodyContext m options u f).writtenPorts.toList.foldl SymbolTable.markWritten
        q.table := by
  obtain ⟨p, hp, rfl⟩ := Encoder.alone_ok.1 h
  exact Context.encodeBody_ok hp

theorem fits_of_portHandle {stepName : String} {key : SymbolKey} {v : Version} {term : Term}
    (h : PortHandle m key v term) : SymbolTable.Fits m stepName key v term := by
  cases key with
  | port q => exact h
  | step | «local» => exact h.elim

theorem Context.fits_of_makes {c : Context} {stepName : String} {key : SymbolKey} {v : Version}
    {term : Term} (h : c.Makes key v term) : SymbolTable.Fits c.model stepName key v term := by
  cases key with
  | step => exact h.elim
  | port q => exact h
  | «local» name owner => exact ⟨_, h.2⟩

/-- The encoding of a body adds the handles of its context. -/
theorem Context.adds_sequence (c : Context) (body : List Node) (base : Versions) :
    c.Adds (c.sequence body base) := adds_paths _ _

theorem encodeUpdate_grows {r : BodyConstraints} (h : encodeUpdate m options u f t = .ok r t') :
    ∃ q, GrowsBy (bodyContext m options u f).Makes t q ∧
      t' = (bodyContext m options u f).writtenPorts.toList.foldl SymbolTable.markWritten q := by
  obtain ⟨q, hq, -, rfl⟩ := encodeUpdate_ok h
  exact ⟨q.table, (Context.adds_sequence (bodyContext m options u f) f.body .empty hq).table, rfl⟩

/-- An encoded influence is one equation, with the target noted afterwards. -/
theorem encodeInfluence_ok {i : InfluenceId} {equation : Term}
    (h : encodeInfluence m i t = .ok equation t') :
    ∃ target source t1 t2, t.port m (m.influence i).target .current = .ok (target, t1) ∧
      t1.entryValue m (m.influence i).source = .ok (source, t2) ∧
      influenceEquation m i target source = .ok equation ∧
      t' = t2.markWritten (m.influence i).target := by
  obtain ⟨target, t1, htarget, h⟩ := Stateful.bind_ok.1 h
  obtain ⟨source, t2, hsource, h⟩ := Stateful.bind_ok.1 h
  obtain ⟨eq, t3, heq, h⟩ := Stateful.bind_ok.1 h
  obtain ⟨e, he, hpair⟩ := Attempt.map_ok.1 (Tabled.lift_ok.1 heq)
  cases hpair
  obtain ⟨_, t4, hmark, h⟩ := Stateful.bind_ok.1 h
  obtain rfl := Stateful.modify_ok.1 hmark
  obtain ⟨rfl, rfl⟩ := Stateful.pure_ok.1 h
  exact ⟨target, source, t1, t2, Tabled.lift_ok.1 htarget, Tabled.lift_ok.1 hsource, he, rfl⟩

theorem encodeInfluence_grows {i : InfluenceId} {equation : Term}
    (h : encodeInfluence m i t = .ok equation t') :
    ∃ q, GrowsBy (PortHandle m) t q ∧ t' = q.markWritten (m.influence i).target := by
  obtain ⟨target, source, t1, t2, h1, h2, -, rfl⟩ := encodeInfluence_ok h
  exact ⟨t2, (SymbolTable.port_ok h1).1.trans (SymbolTable.entryValue_ok h2).1, rfl⟩

theorem SymbolTable.extends_markAll (ports : List PortId) :
    t.Extends (ports.foldl SymbolTable.markWritten t) := ⟨by simp, fun h => by simpa using h⟩

theorem encodeUpdate_extends {r : BodyConstraints}
    (h : encodeUpdate m options u f t = .ok r t') : t.Extends t' := by
  obtain ⟨q, hg, rfl⟩ := encodeUpdate_grows h
  exact hg.toExtends.trans (SymbolTable.extends_markAll _)

theorem encodeUpdate_written {r : BodyConstraints} (h : encodeUpdate m options u f t = .ok r t')
    {q : PortId} :
    q ∈ t'.written ↔ q ∈ t.written ∨ q ∈ (bodyContext m options u f).writtenPorts := by
  obtain ⟨q', hg, rfl⟩ := encodeUpdate_grows h
  rw [SymbolTable.mem_written_markAll, hg.written]
  rfl

theorem encodeInfluence_extends {i : InfluenceId} {equation : Term}
    (h : encodeInfluence m i t = .ok equation t') : t.Extends t' := by
  obtain ⟨q, hg, rfl⟩ := encodeInfluence_grows h
  exact hg.toExtends.trans (SymbolTable.extends_markAll [_])

/-- What is known of an encoded influence when the table has grown further: it equates the
post-step handle of its target with what its source stands for where it is encoded. -/
theorem encodeInfluence_inside {i : InfluenceId} {equation : Term}
    (h : encodeInfluence m i t = .ok equation t') (hT : t'.Extends T) :
    ∃ target source, T.get? (.port (m.influence i).target) .current = some target ∧
      T.get? (.port (m.influence i).source)
        (SymbolTable.entryVersion t.written (m.influence i).source) = some source ∧
      influenceEquation m i target source = .ok equation := by
  obtain ⟨target, source, t₁, t₂, htarget, hsource, heq, rfl⟩ := encodeInfluence_ok h
  obtain ⟨hgrows, hget⟩ := SymbolTable.port_ok htarget
  obtain ⟨hgrows', hget'⟩ := SymbolTable.entryValue_ok hsource
  rw [hgrows.written] at hget'
  exact ⟨target, source, hT.kept (hgrows'.kept hget), hT.kept hget', heq⟩

theorem encodeInfluence_written {i : InfluenceId} {equation : Term}
    (h : encodeInfluence m i t = .ok equation t') {q : PortId} :
    q ∈ t'.written ↔ q ∈ t.written ∨ q = (m.influence i).target := by
  obtain ⟨q', hg, rfl⟩ := encodeInfluence_grows h
  rw [show q ∈ (q'.markWritten _).written ↔ _ from OrderedSet.mem_insert, hg.written]

theorem encodeUpdate_canonical {r : BodyConstraints} (hc : t.Canonical m)
    (h : encodeUpdate m options u f t = .ok r t') : t'.Canonical m := by
  obtain ⟨q, hg, rfl⟩ := encodeUpdate_grows h
  exact (hc.grow hg fun _ _ _ hnew =>
    Context.fits_of_makes (c := bodyContext m options u f) hnew).markAll _

theorem encodeInfluence_canonical {i : InfluenceId} {equation : Term} (hc : t.Canonical m)
    (h : encodeInfluence m i t = .ok equation t') : t'.Canonical m := by
  obtain ⟨q, hg, rfl⟩ := encodeInfluence_grows h
  exact (hc.grow hg fun _ _ _ => fits_of_portHandle).markWritten _

/-- In a well-formed model the value of a port is a constant of its sort. -/
theorem Model.WellFormed.exists_constant? (hm : m.WellFormed) {q : PortId}
    (hq : q.index < m.ports.length) :
    ∃ term, (m.port q).value.constant? (m.sortOfPort q) = some term := by
  obtain ⟨-, hadmit⟩ := hm.admitted hq
  unfold sortOfPort
  cases hdomain : (m.resource (m.port q).resource).domain with
  | integer | real | boolean =>
    rw [hdomain] at hadmit
    cases hvalue : (m.port q).value <;> simp_all [Domain.admit?, Value.constant?]
  | enumeration tags =>
    rw [hdomain] at hadmit
    cases hvalue : (m.port q).value with
    | int | real | bool => simp_all [Domain.admit?]
    | tag t =>
      have ht : t ∈ tags := by simpa [Domain.admit?, hvalue] using hadmit
      obtain ⟨i, hi⟩ : ∃ i, tags.findIdx? (· == t) = some i :=
        Option.isSome_iff_exists.1 (by simpa using ht)
      simp only [hdomain]
      exact ⟨_, Option.map_eq_some_iff.2 ⟨i, hi, rfl⟩⟩

theorem seedPorts_grows : ∀ {ports : List PortId} {t t' : SymbolTable},
    Tabled.seedPorts m ports t = .ok () t' → GrowsBy (PortHandle m) t t'
  | [], t, t', h => by
    obtain ⟨-, rfl⟩ := Stateful.pure_ok.1 h
    exact .rfl
  | q :: ports, t, t', h => by
    obtain ⟨_, t1, hcurrent, h⟩ := Stateful.bind_ok.1 h
    obtain ⟨_, t2, hprior, h⟩ := Stateful.bind_ok.1 h
    exact ((SymbolTable.port_ok (Tabled.lift_ok.1 hcurrent)).1.trans
      (SymbolTable.port_ok (Tabled.lift_ok.1 hprior)).1).trans (seedPorts_grows h)

/-! ### Tables that earlier modifiers leave -/

/-- The tables that the encoding of other modifiers can leave to one modifier. -/
inductive Earlier (m : Model) (options : Options) (x : Modifier) : SymbolTable → Prop
  | fresh : Earlier m options x (.fresh options.stepName)
  | seed {e : EntityId} {t t' : SymbolTable} :
    Earlier m options x t → Tabled.seed m e t = .ok () t' → Earlier m options x t'
  | update {u : UpdateId} {f : UpdateFunction} {r : BodyConstraints} {t t' : SymbolTable} :
    Earlier m options x t → .update u ≠ x → encodeUpdate m options u f t = .ok r t' →
      Earlier m options x t'
  | influence {i : InfluenceId} {equation : Term} {t t' : SymbolTable} :
    Earlier m options x t → encodeInfluence m i t = .ok equation t' → Earlier m options x t'

/-- What one modifier finds: every handle is what its key and version say, and none of them is a
local of the modifier. -/
structure Tidy (m : Model) (x : Modifier) (t : SymbolTable) : Prop where
  canonical : t.Canonical m
  spares {name : String} {v : Version} : t.get? (.local name x) v = none

theorem Tidy.grow {New : SymbolKey → Version → Term → Prop} (h : Tidy m x t)
    (hg : GrowsBy New t t')
    (hn : ∀ key v term, New key v term →
      SymbolTable.Fits m t.stepName key v term ∧ ∀ name, key ≠ .local name x) : Tidy m x t' := by
  refine ⟨h.canonical.grow hg fun key v term hnew => (hn key v term hnew).1, fun {name v} => ?_⟩
  cases hget : t'.get? (.local name x) v with
  | none => rfl
  | some term =>
    rcases hg.fresh hget with ht | hnew
    · rw [h.spares] at ht
      cases ht
    · exact absurd rfl ((hn _ _ _ hnew).2 name)

theorem tidy_of_portHandle {stepName : String} {key : SymbolKey} {v : Version} {term : Term}
    (h : PortHandle m key v term) :
    SymbolTable.Fits m stepName key v term ∧ ∀ name, key ≠ .local name x := by
  refine ⟨fits_of_portHandle h, ?_⟩
  rintro name rfl
  exact h

theorem Tidy.markAll (h : Tidy m x t) (ports : List PortId) :
    Tidy m x (ports.foldl SymbolTable.markWritten t) :=
  ⟨h.canonical.markAll ports, (SymbolTable.get?_markAll ports t _ _).trans h.spares⟩

theorem Tidy.update (h : Tidy m x t) (hu : .update u ≠ x) {r : BodyConstraints}
    (he : encodeUpdate m options u f t = .ok r t') : Tidy m x t' := by
  obtain ⟨q, hg, rfl⟩ := encodeUpdate_grows he
  refine Tidy.markAll (h.grow hg fun key v term hnew => ⟨?_, fun name hkey => ?_⟩) _
  · exact Context.fits_of_makes (c := bodyContext m options u f) hnew
  · subst hkey
    exact hu hnew.1.symm

theorem Tidy.influence (h : Tidy m x t) {i : InfluenceId} {equation : Term}
    (he : encodeInfluence m i t = .ok equation t') : Tidy m x t' := by
  obtain ⟨q, hg, rfl⟩ := encodeInfluence_grows he
  exact Tidy.markAll (h.grow hg fun key v term hnew => tidy_of_portHandle hnew) [_]

theorem Earlier.tidy (h : Earlier m options x t) : Tidy m x t := by
  induction h with
  | fresh =>
    refine ⟨SymbolTable.canonical_fresh m options.stepName, fun {name v} => ?_⟩
    rw [SymbolTable.fresh, SymbolTable.get?_add, if_neg (by simp)]
    rfl
  | seed _ hseed ih => exact ih.grow (seedPorts_grows hseed) fun key v term => tidy_of_portHandle
  | update _ hu he ih => exact ih.update hu he
  | influence _ he ih => exact ih.influence he

/-! ### Meaning of an update -/

theorem SymbolTable.Canonical.postStep (hc : T.Canonical m) {q : PortId} {term : Term}
    (h : T.get? (.port q) .current = some term) : term = .var (m.postStep q) :=
  Except.ok.inj ((hc.fits h).symm.trans (SymbolTable.portTerm_of_ne (by simp [Version.prior])))

theorem Tidy.sortedTable (h : Tidy m (.update u) t) {r : BodyConstraints}
    (he : encodeUpdate m options u f t = .ok r t') :
    (bodyContext m options u f).SortedTable t' := by
  have hcanonical := encodeUpdate_canonical h.canonical he
  obtain ⟨q, hg, rfl⟩ := encodeUpdate_grows he
  intro key v term hget
  cases key with
  | port q => exact SymbolTable.sort_of_portTerm (hcanonical.fits hget)
  | «local» name =>
    rw [SymbolTable.get?_markAll] at hget
    rcases hg.fresh hget with ht | hnew
    · cases ht.symm.trans h.spares
    · rw [hnew.2]
      rfl

variable {K : Type}

/-- The post-step variables of the ports that a body writes have the values of a store. -/
def Context.Ends (c : Context) (σ : Valuation K) (st : Store K) : Prop :=
  ∀ q ∈ c.writtenPorts, σ (c.model.postStep q).name = st.val (.port q)

variable [Field K] [LinearOrder K] {A : Arith K} {σ : Valuation K} {st : Store K}

theorem Context.Ends.of_closes {c : Context} (hc : T.Canonical c.model)
    (hp : ∀ q ∈ c.writtenPorts.toList, ∃ term, T.get? (.port q) .current = some term)
    (h : Closes A σ T c.writtenPorts.toList st) : c.Ends σ st := by
  intro q hq
  obtain ⟨term, hterm⟩ := hp q hq
  have hd := h q hq term hterm
  rw [hc.postStep hterm] at hd
  exact hd.1

variable [IsStrictOrderedRing K] {r : BodyConstraints}

/-- What is known of an encoded body when the table has grown further. -/
theorem encodeUpdate_inside (h : encodeUpdate m options u f t = .ok r t') (hT : t'.Extends T) :
    ∃ q, (bodyContext m options u f).sequence f.body .empty { table := t } = .ok r.constraints q ∧
      r.passthrough = q.passed.toList ∧ Context.Inside T t.written q ∧
      ∀ p ∈ (bodyContext m options u f).writtenPorts.toList,
        ∃ term, T.get? (.port p) .current = some term := by
  obtain ⟨q, hq, hpass, rfl⟩ := encodeUpdate_ok h
  have hg := Context.adds_sequence (bodyContext m options u f) f.body .empty hq
  have hext : q.table.Extends T :=
    ⟨hT.stepName.trans (by simp), fun hget => hT.kept (by simpa using hget)⟩
  refine ⟨q, hq, hpass, ⟨hext, hg.table.written⟩, fun p hp => ?_⟩
  obtain ⟨term, hterm⟩ := Context.paths_present _ hq p hp
  exact ⟨term, hext.kept hterm⟩

theorem encodeUpdate_exact (h : encodeUpdate m options u f t = .ok r t') (hT : t'.Extends T)
    (hc : T.Canonical m) (hsort : (bodyContext m options u f).SortedTable T)
    (hspare : (updateContext m options u f).SparesStepIn f.body)
    (he : (bodyContext m options u f).Enters σ T t.written st) (hpass : r.passthrough = [])
    (hold : ∀ term ∈ r.constraints, term.Holds A σ) :
    ∃ st', (bodyContext m options u f).run A st f.body = some st' ∧
      (bodyContext m options u f).Ends σ st' := by
  obtain ⟨q, hq, hpassed, hin, hpresent⟩ := encodeUpdate_inside h hT
  obtain ⟨st', hrun, hclose⟩ := Context.sequence_exact (Context.covers_ofBody hspare) hc hsort hq
    hin he (hpassed.symm.trans hpass) hold
  exact ⟨st', hrun, .of_closes hc hpresent hclose⟩

theorem encodeUpdate_recorded (h : encodeUpdate m options u f t = .ok r t') (hT : t'.Extends T)
    (hproper : (bodyContext m options u f).Proper T t.written)
    (hspare : (updateContext m options u f).SparesStepIn f.body)
    (he : (bodyContext m options u f).Enters σ T t.written st) :
    ∃ st' σ', (bodyContext m options u f).run A st f.body = some st' ∧
      (bodyContext m options u f).Alters T (fun _ => 0) σ σ' ∧
      (bodyContext m options u f).Recorded A T t.written σ' st' r.constraints := by
  obtain ⟨q, hq, -, hin, -⟩ := encodeUpdate_inside h hT
  exact Context.sequence_sound (Context.covers_ofBody hspare) hproper hq hin he

/-- Whatever a body finds, its run extends to a solution of its constraints. The solution differs
from a given valuation only in the time step and in handles of the ports and locals of the body. -/
def Context.Sound (c : Context) (A : Arith K) (T : SymbolTable) (W : OrderedSet PortId)
    (body : List Node) (cs : List Term) : Prop :=
  ∀ (σ : Valuation K) (st : Store K), T.Sorted σ → c.Starts W st →
    ∃ st' σ', c.run A st body = some st' ∧ T.Sorted σ' ∧ c.Enters σ' T W st ∧
      (∀ term ∈ cs, term.Holds A σ') ∧ c.Ends σ' st' ∧
      T.Changes (fun key _ => key = .step ∨ ∃ k, c.symbolKey k = key) σ σ'

/-- Every solution of the constraints of a body gives the post-step variables of the ports that it
writes the values with which its run ends. -/
def Context.Exact (c : Context) (A : Arith K) (T : SymbolTable) (W : OrderedSet PortId)
    (body : List Node) (cs : List Term) : Prop :=
  ∀ (σ : Valuation K) (st : Store K), c.Enters σ T W st → (∀ term ∈ cs, term.Holds A σ) →
    ∃ st', c.run A st body = some st' ∧ c.Ends σ st'

theorem Earlier.proper (ht : Earlier m options (.update u) t)
    (h : encodeUpdate m options u f t = .ok r t')
    (hnew : ∀ q ∈ (bodyContext m options u f).writtenPorts, q ∉ t.written)
    (hname : t'.NamesDistinct) : (bodyContext m options u f).Proper t' t.written :=
  ⟨hname, encodeUpdate_canonical ht.tidy.canonical h, ht.tidy.sortedTable h, hnew _⟩

/-- **The encoding of an update is sound and, if nothing is passed through, exact**, on every table
that earlier modifiers can leave. -/
theorem encodeUpdate_sound_and_exact (A : Arith K) (ht : Earlier m options (.update u) t)
    (h : encodeUpdate m options u f t = .ok r t')
    (hnew : ∀ q ∈ (bodyContext m options u f).writtenPorts, q ∉ t.written)
    (hspare : (updateContext m options u f).SparesStepIn f.body) (hname : t'.NamesDistinct) :
    (bodyContext m options u f).Sound A t' t.written f.body r.constraints ∧
      (r.passthrough = [] →
        (bodyContext m options u f).Exact A t' t.written f.body r.constraints) := by
  have hproper := ht.proper h hnew hname
  refine ⟨fun σ st hσ hst => ?_, fun hpass σ st he hold => ?_⟩
  · obtain ⟨σ₁, hσ₁, he, hframe⟩ := Context.exists_entering hproper hσ hst
    obtain ⟨st', σ₂, hrun, halter, hrec⟩ := encodeUpdate_recorded h .rfl hproper hspare he
    obtain ⟨q, -, -, -, hpresent⟩ := encodeUpdate_inside h .rfl
    refine ⟨st', σ₂, hrun, halter.sorted hσ₁, halter.enters hproper he, hrec.holds .rfl,
      .of_closes hproper.canonical hpresent hrec.closes, ?_⟩
    refine (hframe.mono fun key v hk => ?_).trans (halter.changes.mono fun key v hk => ?_)
    · exact hk.imp_right fun ⟨k, hk, _⟩ => ⟨k, hk⟩
    · exact .inr ⟨hk.choose, hk.choose_spec.1⟩
  · exact encodeUpdate_exact h .rfl hproper.canonical hproper.sorted hspare he hpass hold

/-- The update of the gauge, once the tank has been filled and measured. -/
theorem watch_sound_and_exact : ∃ m e watch t r t', tankDefinition.build = .ok (m, e) ∧
    UpdateFunction.read (m.update ⟨0⟩).function = .ok watch ∧
    Earlier m {} (.update ⟨0⟩) t ∧ encodeUpdate m {} ⟨0⟩ watch t = .ok r t' ∧
      (bodyContext m {} ⟨0⟩ watch).Sound (default : Arith ℚ) t' t.written watch.body r.constraints ∧
      (bodyContext m {} ⟨0⟩ watch).Exact (default : Arith ℚ) t' t.written watch.body
        r.constraints := by
  have h : Attempt.succeeds (fun (m, e) =>
      Attempt.succeeds (fun fill => Attempt.succeeds (fun watch =>
        Stateful.succeeds (fun _ t₁ => Stateful.succeeds (fun _ t₂ => Stateful.succeeds (fun _ t =>
          Stateful.succeeds (fun r t' =>
            (∀ q ∈ (bodyContext m {} ⟨0⟩ watch).writtenPorts.toList, q ∉ t.written.toList) ∧
              (updateContext m {} ⟨0⟩ watch).SparesStepIn watch.body ∧ t'.NamesDistinct ∧
              r.passthrough = [])
            (encodeUpdate m {} ⟨0⟩ watch t))
          (encodeInfluence m ⟨0⟩ t₂)) (encodeUpdate m {} ⟨1⟩ fill t₁))
        (Tabled.seed m e (.fresh "dt")))
        (UpdateFunction.read (m.update ⟨0⟩).function))
        (UpdateFunction.read (m.update ⟨1⟩).function))
      tankDefinition.build := by decide +kernel
  obtain ⟨⟨m, e⟩, hbuild, h⟩ := Attempt.exists_of_succeeds h
  obtain ⟨fill, -, h⟩ := Attempt.exists_of_succeeds h
  obtain ⟨watch, hwatch, h⟩ := Attempt.exists_of_succeeds h
  obtain ⟨_, t₁, hseed, h⟩ := Stateful.exists_of_succeeds h
  obtain ⟨_, t₂, hfill, h⟩ := Stateful.exists_of_succeeds h
  obtain ⟨_, t, hmeasure, h⟩ := Stateful.exists_of_succeeds h
  obtain ⟨r, t', hr, h⟩ := Stateful.exists_of_succeeds h
  obtain ⟨hnew, hspare, hname, hpass⟩ := of_decide_eq_true h
  have ht : Earlier m {} (.update ⟨0⟩) t :=
    ((Earlier.fresh.seed hseed).update (by decide) hfill).influence hmeasure
  obtain ⟨hsound, hexact⟩ := encodeUpdate_sound_and_exact (default : Arith ℚ) ht hr hnew hspare
    hname
  exact ⟨m, e, watch, t, r, t', hbuild, hwatch, ht, hr, hsound, hexact hpass⟩

end HybridStep
