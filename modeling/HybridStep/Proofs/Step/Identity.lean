import HybridStep.Proofs.Encoding.Occurrences
import HybridStep.Proofs.Encoding.Symbols
import HybridStep.Proofs.Step.Agreement

/-! # What a symbol stands for

A name joins a base name, an optional number and the number of an owner by underscores. The owner is
read off at the last underscore, so names of different owners differ, and so do names of ports. What
is not told apart is the number: version `k` of a local `n` has the name of an unversioned local
`n_k` of the same owner. The name of the time step has no underscore unless it is given one. Apart
from these `Homonyms`, a symbol is one version of one variable and has one sort.

A name or a path in a body is looked up under the key of the port or the local that it denotes, with
two exceptions: a path that names no port is the local of its text, and the name of the time step
is its variable where it is an operand, but a local where it is a target. -/

namespace HybridStep

open SymbolTable

/-! ### Names -/

/-- The name of a version. -/
def Model.symbolText (m : Model) (stepName : String) : SymbolKey → Version → String
  | .step, _ => stepName
  | .port q, v => symbolName (m.port q).name v q.text
  | .local n owner, v => symbolName n v owner.text

/-- Two versions with one name: version `k` of a local `n` and an unversioned local `n_k`; the time
step and what has the name that the time step is given. -/
inductive Homonyms (m : Model) (stepName : String) :
    SymbolKey × Version → SymbolKey × Version → Prop
  | numbered (n : String) (k : Nat) (owner : Modifier) :
    Homonyms m stepName (.local n owner, .index k) (.local (n ++ "_" ++ toString k) owner, .current)
  | step {key : SymbolKey} {v : Version} (hkey : key ≠ .step)
    (hname : stepName = m.symbolText stepName key v) :
    Homonyms m stepName (.step, .current) (key, v)

variable {m : Model} {options : Options} {C : BodyCache} {e : EntityId} {t t' T : SymbolTable}
variable {xs : List ModifierConstraints} {key key' : SymbolKey} {v v' : Version} {x y : Variable}
variable {stepName : String}

theorem underscore_mem_symbolName (name owner : String) (v : Version) :
    '_' ∈ (symbolName name v owner).toList := by
  cases v <;> simp [symbolName]

theorem underscore_mem_symbolText (h : key ≠ .step) :
    '_' ∈ (m.symbolText stepName key v).toList := by
  cases key with
  | step => exact absurd rfl h
  | port | «local» => exact underscore_mem_symbolName _ _ _

/-- What has the name of the time step has an underscore in it. -/
theorem Homonyms.underscore_mem (h : Homonyms m stepName (.step, .current) (key, v)) :
    '_' ∈ stepName.toList := by
  obtain ⟨hkey, hname⟩ : key ≠ .step ∧ stepName = m.symbolText stepName key v := by
    cases h with
    | step hkey hname => exact ⟨hkey, hname⟩
  rw [hname]
  exact underscore_mem_symbolText hkey

/-- Locals of one owner with one name. -/
theorem local_of_symbolName {n n' owner : String} (ho : '_' ∉ owner.toList)
    (h : symbolName n v owner = symbolName n' v' owner) : (n = n' ∧ v = v') ∨
      (∃ k, v = .index k ∧ n' = n ++ "_" ++ toString k ∧ v' = .current) ∨
      ∃ k, v' = .index k ∧ n = n' ++ "_" ++ toString k ∧ v = .current := by
  cases v with
  | current =>
    cases v' with
    | current => exact .inl ⟨((append_eq_append_iff ho ho).1 h).1, rfl⟩
    | index k => exact .inr (.inr ⟨k, rfl, ((append_eq_append_iff ho ho).1 h).1, rfl⟩)
  | index k =>
    cases v' with
    | current => exact .inr (.inl ⟨k, rfl, ((append_eq_append_iff ho ho).1 h).1.symm, rfl⟩)
    | index k' =>
      obtain ⟨rfl, rfl⟩ := index_of_symbolName ho h
      exact .inl ⟨rfl, rfl⟩

theorem Homonyms.symbolText_eq (h : Homonyms m stepName (key, v) (key', v')) :
    m.symbolText stepName key v = m.symbolText stepName key' v' := by
  cases h with
  | numbered n k owner => rfl
  | step _ hname => exact hname

/-- **A name tells the version of a variable, up to homonyms.** -/
theorem symbolText_eq_iff (hv : key = .step → v = .current) (hv' : key' = .step → v' = .current) :
    m.symbolText stepName key v = m.symbolText stepName key' v' ↔
      (key = key' ∧ v = v') ∨ Homonyms m stepName (key, v) (key', v') ∨
        Homonyms m stepName (key', v') (key, v) := by
  constructor
  swap
  · rintro (⟨rfl, rfl⟩ | h | h)
    · rfl
    · exact h.symbolText_eq
    · exact h.symbolText_eq.symm
  intro h
  by_cases hkey : key = .step
  · obtain rfl := hkey
    obtain rfl := hv rfl
    by_cases hkey' : key' = .step
    · exact .inl ⟨hkey'.symm, (hv' hkey').symm⟩
    · exact .inr (.inl (.step hkey' h))
  by_cases hkey' : key' = .step
  · obtain rfl := hkey'
    obtain rfl := hv' rfl
    exact .inr (.inr (.step hkey h.symm))
  cases key with
  | step => exact absurd rfl hkey
  | port q =>
    have hq := underscore_not_mem_port q
    cases key' with
    | step => exact absurd rfl hkey'
    | port q' =>
      obtain rfl := PortId.text_inj (owner_of_symbolName hq (underscore_not_mem_port q') h)
      exact .inl ⟨rfl, version_of_symbolName hq h⟩
    | «local» n' owner' =>
      exact absurd (owner_of_symbolName hq (underscore_not_mem_modifier owner') h)
        (port_text_ne_modifier_text q owner')
  | «local» n owner =>
    have ho := underscore_not_mem_modifier owner
    cases key' with
    | step => exact absurd rfl hkey'
    | port q' =>
      exact absurd (owner_of_symbolName (underscore_not_mem_port q') ho h.symm)
        (port_text_ne_modifier_text q' owner)
    | «local» n' owner' =>
      obtain rfl := Modifier.text_inj
        (owner_of_symbolName ho (underscore_not_mem_modifier owner') h)
      rcases local_of_symbolName ho h with
        ⟨rfl, rfl⟩ | ⟨k, rfl, rfl, rfl⟩ | ⟨k, rfl, rfl, rfl⟩
      · exact .inl ⟨rfl, rfl⟩
      · exact .inr (.inl (.numbered n k owner))
      · exact .inr (.inr (.numbered n' k owner))

/-! ### Handles of a step -/

/-- In a canonical table the name of a handle is the name of its version. -/
theorem SymbolTable.Canonical.name (hc : T.Canonical m) (h : T.get? key v = some (.var x)) :
    x.name = m.symbolText T.stepName key v := by
  have hfits := hc.fits h
  cases key with
  | step =>
    cases hfits
    rfl
  | port q =>
    by_cases hv : v = .prior
    · subst hv
      obtain ⟨k, hk, -⟩ := portTerm_prior hfits
      cases hk
    · obtain hterm := Except.ok.inj (hfits.symm.trans (portTerm_of_ne hv))
      cases hterm
      rfl
  | «local» n owner =>
    obtain ⟨sort, hterm⟩ := hfits
    cases hterm
    rfl

/-- The time step has no versions. -/
def SymbolTable.StepOnce (t : SymbolTable) : Prop :=
  ∀ ⦃v term⦄, t.get? .step v = some term → v = .current

theorem SymbolTable.stepOnce_fresh (stepName : String) : (fresh stepName).StepOnce := by
  intro v term h
  rw [fresh, get?_add] at h
  split_ifs at h with hv
  · exact hv.2
  · cases h

theorem SymbolTable.StepOnce.grow {New : SymbolKey → Version → Term → Prop} (ht : t.StepOnce)
    (hg : GrowsBy New t t') (hnew : ∀ v term, ¬ New .step v term) : t'.StepOnce :=
  fun v term h => (hg.fresh h).elim (fun hold => ht hold) fun hn => absurd hn (hnew v term)

theorem SymbolTable.StepOnce.markAll (ht : t.StepOnce) (ports : List PortId) :
    (ports.foldl markWritten t).StepOnce := fun v term h => by
  rw [get?_markAll] at h
  exact ht h

theorem Encodes.stepOnce (h : Encodes m options C t xs t') (ht : t.StepOnce) : t'.StepOnce := by
  induction h with
  | nil => exact ht
  | update _ he _ ih =>
    obtain ⟨q, hg, rfl⟩ := encodeUpdate_grows he
    exact ih ((ht.grow hg fun _ _ hnew => hnew).markAll _)
  | influence he _ ih =>
    obtain ⟨q, hg, rfl⟩ := encodeInfluence_grows he
    exact ih ((ht.grow hg fun _ _ hnew => hnew).markAll [_])

/-- **Every variable of the constraints of modifiers is a handle of the table.** -/
theorem Encodes.over (h : Encodes m options C t xs t') (hT : t'.Extends T) (hc : T.Canonical m) :
    ∀ x ∈ xs, ∀ e ∈ x.constraints, e.Over T.Has := by
  induction h with
  | nil => exact List.forall_mem_nil _
  | update _ he hxs ih =>
    exact List.forall_mem_cons.2 ⟨over_of_encodeUpdate he (hxs.extends.trans hT) hc, ih hT⟩
  | influence he hxs ih =>
    refine List.forall_mem_cons.2 ⟨List.forall_mem_singleton.2 ?_, ih hT⟩
    exact over_of_encodeInfluence he (hxs.extends.trans hT) hc

/-! ### References -/

/-- Where a name or a path stands in a body: as an operand of an expression, or as the target of an
assignment, where an augmented assignment reads it, too. -/
inductive Place where
  | operand | target

/-- The name of the local that a reference is. An unresolved path is the local of its text. -/
def Reference.localName? : Reference → Option String
  | .port _ => none
  | .local name => some name
  | .unresolved path => some path

namespace Context

variable {c c' : Context} {n n' : Node} {place place' : Place}

/-- What a node refers to. -/
def refers? (c : Context) (n : Node) : Option Reference :=
  resolve? c.model c.entity c.receiver n

/-- Whether a node is the time step at its place. -/
def isStepAt (c : Context) : Place → Node → Bool
  | .operand, n => c.isStep n
  | .target, _ => false

/-- The key in the table of symbols under which a node is looked up at its place. -/
def symbolAt? (c : Context) (place : Place) (n : Node) : Option SymbolKey :=
  if c.isStepAt place n then some .step else (c.refers? n).map fun r => c.symbolKey r.key

theorem refers?_of_isStepAt (h : c.isStepAt place n = true) :
    ∃ name, c.refers? n = some (.local name) := by
  cases place with
  | target => exact absurd h Bool.false_ne_true
  | operand =>
    cases n with
    | name name => exact ⟨name, rfl⟩
    | _ => exact absurd h Bool.false_ne_true

theorem key?_eq_some_iff {key : VarKey} :
    c.key? n = some key ↔ ∃ r, c.refers? n = some r ∧ r.key = key := Option.map_eq_some_iff

/-- References share a key if they are one port, or locals of one name of one modifier. -/
theorem symbolKey_eq_iff {r r' : Reference} :
    c.symbolKey r.key = c'.symbolKey r'.key ↔ (∃ q, r = .port q ∧ r' = .port q) ∨
      (c.modifier = c'.modifier ∧
        ∃ name, r.localName? = some name ∧ r'.localName? = some name) := by
  cases r <;> cases r' <;>
    simp [Reference.key, Reference.localName?, symbolKey, eq_comm, and_comm]

/-- **What is looked up under one key**: the time step as an operand, one port, or locals of one
name of one modifier. -/
theorem symbolAt?_eq_iff (h : c.symbolAt? place n = some key)
    (h' : c'.symbolAt? place' n' = some key') :
    key = key' ↔ (c.isStepAt place n = true ∧ c'.isStepAt place' n' = true) ∨
      (∃ q, c.refers? n = some (.port q) ∧ c'.refers? n' = some (.port q)) ∨
      (c.isStepAt place n = false ∧ c'.isStepAt place' n' = false ∧ c.modifier = c'.modifier ∧
        ∃ name, (c.refers? n).bind Reference.localName? = some name ∧
          (c'.refers? n').bind Reference.localName? = some name) := by
  unfold symbolAt? at h h'
  by_cases hstep : c.isStepAt place n = true
  · obtain ⟨name, hname⟩ := refers?_of_isStepAt hstep
    obtain rfl : SymbolKey.step = key := by simpa [hstep] using h
    by_cases hstep' : c'.isStepAt place' n' = true
    · obtain rfl : SymbolKey.step = key' := by simpa [hstep'] using h'
      simp [hstep, hstep']
    · rw [if_neg hstep'] at h'
      obtain ⟨r', -, rfl⟩ := Option.map_eq_some_iff.1 h'
      simp [hstep, hstep', hname, (symbolKey_ne_step _).symm]
  · rw [if_neg hstep] at h
    obtain ⟨r, hr, rfl⟩ := Option.map_eq_some_iff.1 h
    by_cases hstep' : c'.isStepAt place' n' = true
    · obtain ⟨name', hname'⟩ := refers?_of_isStepAt hstep'
      obtain rfl : SymbolKey.step = key' := by simpa [hstep'] using h'
      simp [hstep, hstep', hname', symbolKey_ne_step]
    · rw [if_neg hstep'] at h'
      obtain ⟨r', hr', rfl⟩ := Option.map_eq_some_iff.1 h'
      simp [hstep, hstep', hr, hr', symbolKey_eq_iff]

/-- **An operand is a handle of its key.** -/
theorem operand_ok (hc : T.Canonical c.model) {r : Reference} (hr : c.refers? n = some r)
    {s : Scope} {hint : Option TermSort} {o : Operand} {p p' : Progress}
    (h : c.expr s hint n p = .ok o p') (hT : p'.table.Extends T) :
    ∃ key v term, c.symbolAt? .operand n = some key ∧ o = .term term ∧
      T.get? key v = some term := by
  have hnode : ∀ {term q}, c.readNode s n p = .ok term q → q.table.Extends T →
      ∃ v, T.get? (c.symbolKey r.key) v = some term := by
    intro term q h hT
    obtain ⟨key, q₁, hkey, h⟩ := Stateful.bind_ok.1 h
    obtain ⟨r', hr', rfl⟩ := key?_eq_some_iff.1 (keyOf_ok hkey).1
    obtain rfl := Option.some.inj (hr.symm.trans hr')
    exact ⟨_, hT.kept (readKey_ok h)⟩
  cases n with
  | name name =>
    obtain ⟨term, hread, rfl⟩ := Stateful.map_ok.1 h
    unfold readName at hread
    by_cases hstep : c.isStep (.name name) = true
    · rw [if_pos hstep] at hread
      obtain ⟨q, q₁, hget, hpure⟩ := Stateful.bind_ok.1 hread
      obtain ⟨rfl, rfl⟩ := Stateful.get_ok.1 hget
      obtain ⟨rfl, rfl⟩ := Stateful.pure_ok.1 hpure
      refine ⟨.step, .current, _, if_pos hstep, rfl, ?_⟩
      rw [hc.step, SymbolTable.step, SymbolTable.step, hT.stepName]
    · rw [if_neg hstep] at hread
      obtain ⟨v, hget⟩ := hnode hread hT
      exact ⟨_, v, term, by rw [symbolAt?, isStepAt, if_neg hstep, hr, Option.map_some], rfl, hget⟩
  | access segments =>
    obtain ⟨term, hread, rfl⟩ := Stateful.map_ok.1 h
    obtain ⟨v, hget⟩ := hnode hread hT
    refine ⟨_, v, term, ?_, rfl, hget⟩
    rw [symbolAt?, isStepAt, hr, Option.map_some]
    exact if_neg Bool.false_ne_true
  | _ => cases hr

/-- **A target is read and written by handles of its key.** -/
theorem target_ok {key : VarKey} {s : Scope} {term : Term} {p p₁ p₂ p₃ : Progress}
    (hkey : c.keyOf n p = .ok key p₁)
    (h : c.readKey s key p₂ = .ok term p₃ ∨ c.writeKey s key p₂ = .ok term p₃)
    (hT : p₃.table.Extends T) :
    c.symbolAt? .target n = some (c.symbolKey key) ∧
      ∃ v, T.get? (c.symbolKey key) v = some term := by
  obtain ⟨r, hr, rfl⟩ := key?_eq_some_iff.1 (keyOf_ok hkey).1
  refine ⟨by rw [symbolAt?, isStepAt, hr]; rfl, ?_⟩
  rcases h with h | h
  · exact ⟨_, hT.kept (readKey_ok h)⟩
  · exact ⟨_, hT.kept (writeKey_ok h)⟩

end Context

/-! ### Steps -/

namespace Model

/-- What the symbols of a step stand for.

* `handles`: handles have one name if and only if they are the same version of the same variable, or
  homonyms;
* `stepApart`: the time step has no homonym if its name has no underscore;
* `operands`, `targets`: the handle of an operand is that of its key, and so is every handle by
  which a target is read or written;
* `references`: names and paths in bodies share a key if and only if they are the time step as
  operands, or one port, or locals of one name in one update, where a path that names no port is the
  local of its text;
* `occurrences`: variables of one name in the script have one sort, or they are homonyms. -/
structure SymbolsIdentify (m : Model) (options : Options) (s : StepConstraints) : Prop where
  handles {key key' : SymbolKey} {v v' : Version} {x y : Variable} :
    s.table.get? key v = some (.var x) → s.table.get? key' v' = some (.var y) →
      (x.name = y.name ↔ (key = key' ∧ v = v') ∨ Homonyms m options.stepName (key, v) (key', v') ∨
        Homonyms m options.stepName (key', v') (key, v))
  stepApart {key : SymbolKey} {v : Version} : '_' ∉ options.stepName.toList →
    ¬ Homonyms m options.stepName (.step, .current) (key, v)
  operands {u : UpdateId} {f : UpdateFunction} {n : Node} {r : Reference} {scope : Scope}
    {hint : Option TermSort} {o : Operand} {p p' : Progress} :
    (bodyContext m options u f).refers? n = some r →
      (bodyContext m options u f).expr scope hint n p = .ok o p' → p'.table.Extends s.table →
        ∃ key v term, (bodyContext m options u f).symbolAt? .operand n = some key ∧
          o = .term term ∧ s.table.get? key v = some term
  targets {u : UpdateId} {f : UpdateFunction} {n : Node} {key : VarKey} {scope : Scope}
    {term : Term} {p p₁ p₂ p₃ : Progress} :
    (bodyContext m options u f).keyOf n p = .ok key p₁ →
      (bodyContext m options u f).readKey scope key p₂ = .ok term p₃ ∨
        (bodyContext m options u f).writeKey scope key p₂ = .ok term p₃ →
      p₃.table.Extends s.table →
        (bodyContext m options u f).symbolAt? .target n =
            some ((bodyContext m options u f).symbolKey key) ∧
          ∃ v, s.table.get? ((bodyContext m options u f).symbolKey key) v = some term
  references {u u' : UpdateId} {f f' : UpdateFunction} {place place' : Place} {n n' : Node}
    {key key' : SymbolKey} :
    (bodyContext m options u f).symbolAt? place n = some key →
      (bodyContext m options u' f').symbolAt? place' n' = some key' →
        (key = key' ↔
          ((bodyContext m options u f).isStepAt place n = true ∧
            (bodyContext m options u' f').isStepAt place' n' = true) ∨
          (∃ q, (bodyContext m options u f).refers? n = some (.port q) ∧
            (bodyContext m options u' f').refers? n' = some (.port q)) ∨
          ((bodyContext m options u f).isStepAt place n = false ∧
            (bodyContext m options u' f').isStepAt place' n' = false ∧ u = u' ∧
            ∃ name, ((bodyContext m options u f).refers? n).bind Reference.localName? = some name ∧
              ((bodyContext m options u' f').refers? n').bind Reference.localName? = some name))
  occurrences {x y : Variable} : x ∈ Term.varsOfList s.script.constraints →
    y ∈ Term.varsOfList s.script.constraints → x.name = y.name → x = y ∨
      ∃ key v key' v', s.table.get? key v = some (.var x) ∧ s.table.get? key' v' = some (.var y) ∧
        (Homonyms m options.stepName (key, v) (key', v') ∨
          Homonyms m options.stepName (key', v') (key, v))

/-- Every variable of the script of a step is a handle of its table. -/
theorem Step.has_of_mem_vars {s : StepConstraints} {d : Option Rat}
    (h : m.Step options e d C s) (hx : x ∈ Term.varsOfList s.script.constraints) :
    s.table.Has x := by
  obtain ⟨t, hseed, henc⟩ := h.encodes
  have hc := henc.canonical (seeded hseed).1
  rw [s.script_eq, Term.mem_varsOfList] at hx
  obtain ⟨term, hterm, hx⟩ := hx
  rcases List.mem_append.1 hterm with hsize | hmodifier
  · have hd := h.size
    cases d with
    | none =>
      rw [show s.stepSize = none from hd] at hsize
      cases hsize
    | some dt =>
      obtain ⟨equation, hequation, hstepSize⟩ := hd
      rw [hstepSize, Option.toList_some, List.mem_singleton] at hsize
      subst hsize
      exact Term.over_mkEq (checked_eq_ok.1 hequation) (hc.over_handle hc.step)
        (Term.over_real dt) x hx
  · obtain ⟨z, hz, hterm⟩ := List.mem_flatMap.1 hmodifier
    exact henc.over .rfl hc z hz term hterm x hx

/-- **A symbol identifies one variable, up to homonyms.** -/
theorem symbols_identify (hm : m.Built) {d : Option Rat} {cache : BodyCache} {s : StepConstraints}
    (h : m.step options e d cache = .ok s C) : m.SymbolsIdentify options s := by
  have hstep := step_ok hm.wellFormed h
  obtain ⟨t, hseed, henc⟩ := hstep.encodes
  have hgrows : GrowsBy (PortHandle m) _ t := seedPorts_grows hseed
  have hc := henc.canonical (seeded hseed).1
  have honce : s.table.StepOnce :=
    henc.stepOnce ((stepOnce_fresh options.stepName).grow hgrows fun _ _ hnew => hnew)
  have hname : s.table.stepName = options.stepName :=
    henc.extends.stepName.trans hgrows.stepName
  have hhandles : ∀ {key key' : SymbolKey} {v v' : Version} {x y : Variable},
      s.table.get? key v = some (.var x) → s.table.get? key' v' = some (.var y) →
        (x.name = y.name ↔ (key = key' ∧ v = v') ∨
          Homonyms m options.stepName (key, v) (key', v') ∨
          Homonyms m options.stepName (key', v') (key, v)) := by
    intro key key' v v' x y hx hy
    rw [hc.name hx, hc.name hy, hname]
    refine symbolText_eq_iff ?_ ?_
    · rintro rfl
      exact honce hx
    · rintro rfl
      exact honce hy
  have hmodifier : ∀ {u u' : UpdateId} {f f' : UpdateFunction},
      (bodyContext m options u f).modifier = (bodyContext m options u' f').modifier ↔ u = u' :=
    ⟨Modifier.update.inj, congrArg Modifier.update⟩
  exact {
    handles := hhandles
    stepApart := fun hunderscore hsame => hunderscore hsame.underscore_mem
    operands := fun hr h hT => Context.operand_ok (c := bodyContext m options _ _) hc hr h hT
    targets := Context.target_ok
    references := fun hkey hkey' => by rw [Context.symbolAt?_eq_iff hkey hkey', hmodifier]
    occurrences := fun hx hy hxy => by
      obtain ⟨key, v, hgetx⟩ := hstep.has_of_mem_vars hx
      obtain ⟨key', v', hgety⟩ := hstep.has_of_mem_vars hy
      rcases (hhandles hgetx hgety).1 hxy with ⟨rfl, rfl⟩ | hhomonyms
      · exact .inl (Term.var.inj (Option.some.inj (hgetx.symm.trans hgety)))
      · exact .inr ⟨key, v, key', v', hgetx, hgety, hhomonyms⟩ }

/-- The symbols of the tank identify its variables. -/
theorem tank_symbols_identify : ∃ m e s cache, tankDefinition.build = .ok (m, e) ∧
    m.step {} e (some 1) {} = .ok s cache ∧ m.SymbolsIdentify {} s := by
  obtain ⟨m, e, s, cache, hbuild, hstep, -⟩ := tank_step
  exact ⟨m, e, s, cache, hbuild, hstep,
    symbols_identify (ModelDefinition.build_built hbuild).1 hstep⟩

/-! ### Symbols that are not told apart -/

/-- An update that writes a local and reads a path of the same text that names no port. -/
def strayPathDefinition : ModelDefinition where
  resources := [⟨"num", none, .named "real"⟩]
  entity := .mk "e" [⟨"p", .internal, "num", .number (.int 0)⟩] ["s"] none
    [⟨"u", "s", "p", "|s, dt| \x7b let q = 1.0; s.q.value + 2.0 \x7d"⟩] [] []

/-- A path that names no port has the key of the local of its text. -/
theorem stray_path_is_local : ∃ m e f, strayPathDefinition.build = .ok (m, e) ∧
    UpdateFunction.read (m.update ⟨0⟩).function = .ok f ∧
    .local "q" ∈ Node.writesOfList (bodyContext m {} ⟨0⟩ f).refers? f.body ∧
    ["s", "q", "value"] ∈ Node.readsOfList f.body ∧
    (bodyContext m {} ⟨0⟩ f).refers? (.access ["s", "q", "value"]) = some (.unresolved "q") := by
  have h : Attempt.succeeds (fun (m, _) => Attempt.succeeds (fun f =>
      .local "q" ∈ Node.writesOfList (bodyContext m {} ⟨0⟩ f).refers? f.body ∧
      ["s", "q", "value"] ∈ Node.readsOfList f.body ∧
      (bodyContext m {} ⟨0⟩ f).refers? (.access ["s", "q", "value"]) = some (.unresolved "q"))
      (UpdateFunction.read (m.update ⟨0⟩).function)) strayPathDefinition.build := by
    decide +kernel
  obtain ⟨⟨m, e⟩, hbuild, h⟩ := Attempt.exists_of_succeeds h
  obtain ⟨f, hf, h⟩ := Attempt.exists_of_succeeds h
  exact ⟨m, e, f, hbuild, hf, of_decide_eq_true h⟩

/-- An update that writes a local and reads another one, which has the name of the first version of
the local. -/
def numberedLocalDefinition : ModelDefinition where
  resources := [⟨"num", none, .named "real"⟩]
  entity := .mk "e" [⟨"p", .internal, "num", .number (.int 0)⟩] ["s"] none
    [⟨"u", "s", "p", "|s, dt| \x7b let x = 1; x_1 \x7d"⟩] [] []

/-- The first version of a local `x` and an unversioned local `x_1` are one symbol with two
sorts. -/
theorem numbered_local_sorted_twice : ∃ m e s cache, numberedLocalDefinition.build = .ok (m, e) ∧
    m.step {} e none {} = .ok s cache ∧
    s.table.get? (.local "x" (.update ⟨0⟩)) (.index 1) = some (.var ⟨"x_1_u0", .int⟩) ∧
    s.table.get? (.local "x_1" (.update ⟨0⟩)) .current = some (.var ⟨"x_1_u0", .real⟩) ∧
    ⟨"x_1_u0", .int⟩ ∈ Term.varsOfList s.script.constraints ∧
    ⟨"x_1_u0", .real⟩ ∈ Term.varsOfList s.script.constraints := by
  have h : Attempt.succeeds (fun (m, e) => Stateful.succeeds (fun s _ =>
      s.table.get? (.local "x" (.update ⟨0⟩)) (.index 1) = some (.var ⟨"x_1_u0", .int⟩) ∧
      s.table.get? (.local "x_1" (.update ⟨0⟩)) .current = some (.var ⟨"x_1_u0", .real⟩) ∧
      ⟨"x_1_u0", .int⟩ ∈ Term.varsOfList s.script.constraints ∧
      ⟨"x_1_u0", .real⟩ ∈ Term.varsOfList s.script.constraints)
      (m.encodeStepDown {} 1 e none ⟨.fresh "dt", {}⟩)) numberedLocalDefinition.build := by
    decide +kernel
  obtain ⟨⟨m, e⟩, hbuild, h⟩ := Attempt.exists_of_succeeds h
  obtain ⟨s, p, hdown, h⟩ := Stateful.exists_of_succeeds h
  exact ⟨m, e, s, p.cache, hbuild, step_ok_of_down hdown, of_decide_eq_true h⟩

/-- A time step with the name of a post-step variable is not told apart from it. -/
theorem named_step_is_port : ∃ m e s cache, numberedLocalDefinition.build = .ok (m, e) ∧
    m.step { stepName := "p_p0" } e none {} = .ok s cache ∧
    s.table.get? .step .current = some (.var ⟨"p_p0", .real⟩) ∧
    s.table.get? (.port ⟨0⟩) .current = some (.var ⟨"p_p0", .real⟩) := by
  have h : Attempt.succeeds (fun (m, e) => Stateful.succeeds (fun s _ =>
      s.table.get? .step .current = some (.var ⟨"p_p0", .real⟩) ∧
      s.table.get? (.port ⟨0⟩) .current = some (.var ⟨"p_p0", .real⟩))
      (m.encodeStepDown { stepName := "p_p0" } 1 e none ⟨.fresh "p_p0", {}⟩))
      numberedLocalDefinition.build := by decide +kernel
  obtain ⟨⟨m, e⟩, hbuild, h⟩ := Attempt.exists_of_succeeds h
  obtain ⟨s, p, hdown, h⟩ := Stateful.exists_of_succeeds h
  exact ⟨m, e, s, p.cache, hbuild, step_ok_of_down hdown, of_decide_eq_true h⟩

/-- Two handles of one name, one written and the other read, have two sorts; a local and a path that
names no port share a key; and a time step can share the name of a port. -/
theorem symbols_not_identified :
    (∃ m e s cache key v key' v' x y, numberedLocalDefinition.build = .ok (m, e) ∧
      m.step {} e none {} = .ok s cache ∧ s.table.get? key v = some (.var x) ∧
      s.table.get? key' v' = some (.var y) ∧ key ≠ key' ∧ x.name = y.name ∧ x.sort ≠ y.sort ∧
      x ∈ Term.varsOfList s.script.constraints ∧ y ∈ Term.varsOfList s.script.constraints) ∧
    (∃ m e f r path r' key, strayPathDefinition.build = .ok (m, e) ∧
      UpdateFunction.read (m.update ⟨0⟩).function = .ok f ∧
      r ∈ Node.writesOfList (bodyContext m {} ⟨0⟩ f).refers? f.body ∧
      path ∈ Node.readsOfList f.body ∧
      (bodyContext m {} ⟨0⟩ f).refers? (.access path) = some r' ∧ r ≠ r' ∧
      (bodyContext m {} ⟨0⟩ f).symbolKey r.key = key ∧
      (bodyContext m {} ⟨0⟩ f).symbolAt? .operand (.access path) = some key) ∧
    ∃ m e options s cache key v key' v' x, numberedLocalDefinition.build = .ok (m, e) ∧
      m.step options e none {} = .ok s cache ∧ s.table.get? key v = some (.var x) ∧
      s.table.get? key' v' = some (.var x) ∧ (key, v) ≠ (key', v') := by
  refine ⟨?_, ?_, ?_⟩
  · obtain ⟨m, e, s, cache, hbuild, hstep, hwritten, hread, hint, hreal⟩ :=
      numbered_local_sorted_twice
    exact ⟨m, e, s, cache, _, _, _, _, _, _, hbuild, hstep, hwritten, hread, by decide, rfl,
      by decide, hint, hreal⟩
  · obtain ⟨m, e, f, hbuild, hf, hwrite, hread, hpath⟩ := stray_path_is_local
    refine ⟨m, e, f, _, _, _, _, hbuild, hf, hwrite, hread, hpath, by decide, rfl, ?_⟩
    rw [Context.symbolAt?, hpath]
    rfl
  · obtain ⟨m, e, s, cache, hbuild, hstep, hdt, hport⟩ := named_step_is_port
    exact ⟨m, e, _, s, cache, _, _, _, _, _, hbuild, hstep, hdt, hport, by decide⟩

end Model

end HybridStep
