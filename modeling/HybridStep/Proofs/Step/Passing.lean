import HybridStep.Proofs.Encoding.Passing
import HybridStep.Proofs.Step.Agreement
import HybridStep.Proofs.Step.Caching

/-! # Nothing that is passed through is lost

A cache only has bodies that have been read, however it has been used. So each update of a step
passes through what its body loses, and the script of the step can be assembled if and only if none
of its bodies loses anything. Otherwise the error has one text for each update and each text that it
loses. -/

namespace HybridStep

open Node (FormedList)

/-! ### What caches hold -/

/-- Whatever it gives, a computation keeps a property of the cache in its state. -/
def KeepsCache {ε σ α : Type} (P : BodyCache → Prop) (cache : σ → BodyCache) (x : EStateM ε σ α) :
    Prop :=
  ∀ s, P (cache s) → P (cache (Stateful.final (x s)))

section

variable {ε σ α β : Type} {P : BodyCache → Prop} {cache : σ → BodyCache}

theorem KeepsCache.pure (a : α) : KeepsCache P cache (pure a : EStateM ε σ α) := fun _ h => h

theorem KeepsCache.throw (e : ε) : KeepsCache P cache (throw e : EStateM ε σ α) := fun _ h => h

theorem KeepsCache.bind {x : EStateM ε σ α} {f : α → EStateM ε σ β} (hx : KeepsCache P cache x)
    (hf : ∀ a, KeepsCache P cache (f a)) : KeepsCache P cache (x >>= f) := fun s h => by
  have hs := hx s h
  simp only [Bind.bind, EStateM.bind]
  cases hrun : x s with
  | ok a s' =>
    rw [hrun] at hs
    exact hf a s' hs
  | error e s' =>
    rw [hrun] at hs
    exact hs

theorem KeepsCache.onTable (x : Tabled α) :
    KeepsCache P StepProgress.cache (Stepping.onTable x) := fun p h => by
  unfold Stepping.onTable
  cases x p.table <;> exact h

end

namespace Model

variable {P : BodyCache → Prop} (hP : ∀ c text, P c → P (c.read text).2)
variable (m : Model) (options : Options)
include hP

theorem order_keeps (e : EntityId) : KeepsCache P id (m.order e) := by
  have hread : ∀ u, KeepsCache P id (m.readPorts u) := fun u c hc => by
    have hnext := hP c (m.update u).function hc
    simp only [readPorts, id]
    generalize c.read (m.update u).function = answer at hnext ⊢
    obtain ⟨_ | _, _⟩ := answer <;> exact hnext
  have hadd : ∀ us g, KeepsCache P id (m.addUpdates g us) := by
    intro us
    induction us with
    | nil => exact fun g => .pure g
    | cons u us ih => exact fun g => (hread u).bind fun ps => ih _
  refine ((hadd _ _).bind fun g => .pure _).bind fun g => ?_
  cases m.orderOfGraph e g with
  | ok ms => exact .pure ms
  | error err => exact .throw err

theorem encodeUpdate_keeps (u : UpdateId) :
    KeepsCache P StepProgress.cache (m.encodeUpdate options u) := by
  have hread : KeepsCache P StepProgress.cache (Stepping.readBody (m.update u).function) :=
    fun p h => by
      have hnext := hP p.cache (m.update u).function h
      unfold Stepping.readBody
      generalize p.cache.read (m.update u).function = answer at hnext ⊢
      obtain ⟨_ | _, _⟩ := answer <;> exact hnext
  exact hread.bind fun f => (KeepsCache.onTable _).bind fun r => .pure _

mutual

theorem encodeEntity_keeps (e : EntityId) :
    KeepsCache P StepProgress.cache (m.encodeEntity options e) := by
  rw [encodeEntity]
  refine KeepsCache.bind (fun p h => ?_) fun ms => encodeModifiers_keeps e ms
  have horder := order_keeps hP m e p.cache h
  unfold Stepping.onCache
  simp only [id] at horder
  cases hrun : m.order e p.cache <;> rw [hrun] at horder <;> exact horder
termination_by (m.entities.length - e.index, 1, 0)

theorem encodeModifiers_keeps (e : EntityId) : (ms : List Modifier) →
    KeepsCache P StepProgress.cache (m.encodeModifiers options e ms)
  | [] => by
    rw [encodeModifiers]
    exact .pure []
  | .update u :: rest => by
    rw [encodeModifiers]
    exact (encodeUpdate_keeps hP m options u).bind fun _ =>
      (encodeModifiers_keeps e rest).bind fun _ => .pure _
  | .influence i :: rest => by
    rw [encodeModifiers]
    have hfirst : KeepsCache P StepProgress.cache (m.encodeInfluence i) :=
      (KeepsCache.onTable _).bind fun _ => .pure _
    exact hfirst.bind fun _ => (encodeModifiers_keeps e rest).bind fun _ => .pure _
  | .subentity s :: rest => by
    rw [encodeModifiers]
    have hrest : ∀ inner : List ModifierConstraints, KeepsCache P StepProgress.cache (do
        let others ← m.encodeModifiers options e rest
        return inner ++ others) := fun inner =>
      (encodeModifiers_keeps e rest).bind fun _ => .pure _
    split
    · exact (encodeEntity_keeps s).bind hrest
    · exact (KeepsCache.pure _).bind hrest
termination_by ms => (m.entities.length - e.index, 0, ms.length)

end

theorem step_keeps (e : EntityId) (dt : Option Rat) : KeepsCache P id (m.step options e dt) := by
  intro c hc
  have hstep : KeepsCache P StepProgress.cache (m.encodeStep options e dt) := by
    rw [encodeStep_eq]
    refine ((KeepsCache.onTable _).bind fun _ => encodeEntity_keeps hP m options e).bind
      fun modifiers p hp => ?_
    rwa [closeStep, Stateful.final_leaving]
  have hkept := hstep ⟨.fresh options.stepName, c⟩ hc
  simp only [id, step]
  cases hrun : m.encodeStep options e dt ⟨.fresh options.stepName, c⟩ <;> rw [hrun] at hkept <;>
    exact hkept

end Model

/-- A cache only has bodies that have been read. -/
def BodyCache.Genuine (c : BodyCache) : Prop :=
  ∀ k f, c.functions.get? k = some f → ∃ text, UpdateFunction.read text = .ok f

theorem BodyCache.genuine_empty (hits misses : Nat) : Genuine ⟨.empty, hits, misses⟩ :=
  fun _ _ h => nomatch h

theorem BodyCache.Genuine.read {c : BodyCache} (h : c.Genuine) (text : String) :
    (c.read text).2.Genuine := by
  unfold BodyCache.read
  split
  · exact h
  · split
    · next f hf =>
      intro k g hk
      rw [OrderedMap.get?_insert] at hk
      split at hk
      · exact ⟨text, Option.some.inj hk ▸ hf⟩
      · exact h k g hk
    · exact h

/-- **However a cache is used, it only has bodies that have been read.** -/
theorem CacheUse.genuine_run (uses : List CacheUse) : (uses.foldl run {}).Genuine := by
  induction uses using List.reverseRecOn with
  | nil => exact BodyCache.genuine_empty 0 0
  | append_singleton uses x ih =>
    rw [List.foldl_append]
    cases x with
    | parse text => exact ih.read text
    | clear => exact BodyCache.genuine_empty _ _
    | order m e => exact Model.order_keeps (fun c text hc => hc.read text) m e _ ih
    | step m options e dt =>
      exact Model.step_keeps (fun c text hc => hc.read text) m options e dt _ ih

/-! ### Modifiers of a step -/

namespace Model

/-- A modifier of a step loses a text: it is an update whose body does. -/
def LosesText (m : Model) (C : BodyCache) (x : Modifier) (text : String) : Prop :=
  ∃ u f, x = .update u ∧ C.body? (m.update u).function = some f ∧ Node.Loses f.body text

variable {m : Model} {options : Options} {C : BodyCache} {t t' : SymbolTable}

/-- What a modifier of a step passes through is what it loses. -/
structure Accounted (m : Model) (C : BodyCache) (x : ModifierConstraints) : Prop where
  name : x.name = m.modifierName x.modifier
  nodup : x.passthrough.Nodup
  mem {text : String} : text ∈ x.passthrough ↔ m.LosesText C x.modifier text

theorem accounted_update {u : UpdateId} {f : UpdateFunction} {r : BodyConstraints}
    (hf : C.body? (m.update u).function = some f) (hformed : FormedList f.body)
    (he : HybridStep.encodeUpdate m options u f t = .ok r t') : m.Accounted C
      ⟨.update u, m.modifierName (.update u), r.constraints, r.passthrough⟩ := by
  obtain ⟨p, hp, -⟩ := Encoder.alone_ok.1 he
  obtain ⟨hnodup, hmem⟩ := Context.encodeBody_passthrough hformed rfl hp
  refine ⟨rfl, hnodup, fun {text} => (hmem text).trans ⟨fun h => ⟨u, f, rfl, hf, h⟩, ?_⟩⟩
  rintro ⟨w, g, hw, hg, hloses⟩
  obtain rfl := Modifier.update.inj hw
  obtain rfl := Option.some.inj (hf.symm.trans hg)
  exact hloses

theorem accounted_influence {i : InfluenceId} {equation : Term} : m.Accounted C
    ⟨.influence i, m.modifierName (.influence i), [equation], []⟩ where
  name := rfl
  nodup := List.nodup_nil
  mem := ⟨(nomatch ·), fun ⟨_, _, h, _⟩ => nomatch h⟩

theorem accounted_of_encodes (hC : C.Genuine) {xs : List ModifierConstraints}
    (h : Encodes m options C t xs t') : ∀ x ∈ xs, m.Accounted C x := by
  induction h with
  | nil => exact List.forall_mem_nil _
  | update hf he _ ih =>
    obtain ⟨text, hread⟩ := hC _ _ hf
    exact List.forall_mem_cons.2
      ⟨accounted_update hf (UpdateFunction.formed_of_read hread) he, ih⟩
  | influence _ _ ih => exact List.forall_mem_cons.2 ⟨accounted_influence, ih⟩

end Model

/-! ### Scripts -/

/-- What is passed through in a step, with the modifier that does it. -/
def StepConstraints.passed (s : StepConstraints) : List (Modifier × String) :=
  s.modifiers.flatMap fun x => x.passthrough.map fun text => (x.modifier, text)

namespace Model

variable {m : Model} {options : Options} {C : BodyCache} {e : EntityId} {dt : Option Rat}
variable {s : StepConstraints}

/-- A step accounts for what its bodies lose, which are those of a cache: its script can be
assembled only if there is nothing, and otherwise the error has one text for each modifier and each
text that it loses. -/
structure Accounts (m : Model) (C : BodyCache) (s : StepConstraints) : Prop where
  bodies {u : UpdateId} : .update u ∈ s.modifiers.map (·.modifier) →
    ∃ f, C.body? (m.update u).function = some f
  fails : (∃ err, s.script.assemble = .error err) ↔
    ∃ x ∈ s.modifiers.map (·.modifier), ∃ text, m.LosesText C x text
  entries {err : CarriedTexts} : s.script.assemble = .error err →
    ∃ entries : List (Modifier × String), entries.Nodup ∧
      (∀ x text, (x, text) ∈ entries ↔
        x ∈ s.modifiers.map (·.modifier) ∧ m.LosesText C x text) ∧
      err.texts = entries.map fun (x, text) => m.modifierName x ++ ": " ++ text

theorem mem_passed (h : ∀ x ∈ s.modifiers, m.Accounted C x) {x : Modifier} {text : String} :
    (x, text) ∈ s.passed ↔ x ∈ s.modifiers.map (·.modifier) ∧ m.LosesText C x text := by
  simp only [StepConstraints.passed, List.mem_flatMap, List.mem_map, Prod.mk.injEq]
  constructor
  · rintro ⟨y, hy, text', htext, rfl, rfl⟩
    exact ⟨⟨y, hy, rfl⟩, (h y hy).mem.1 htext⟩
  · rintro ⟨⟨y, hy, rfl⟩, hloses⟩
    exact ⟨y, hy, text, (h y hy).mem.2 hloses, rfl, rfl⟩

theorem nodup_passed (h : ∀ x ∈ s.modifiers, m.Accounted C x)
    (hnodup : (s.modifiers.map (·.modifier)).Nodup) : s.passed.Nodup := by
  refine List.nodup_flatMap.2 ⟨fun x hx => ?_, ?_⟩
  · exact (h x hx).nodup.map fun text text' heq => (Prod.mk.inj heq).2
  · refine (List.pairwise_map.1 hnodup).imp fun hne p hp hp' => hne ?_
    obtain ⟨_, -, rfl⟩ := List.mem_map.1 hp
    obtain ⟨_, -, heq⟩ := List.mem_map.1 hp'
    exact (Prod.mk.inj heq).1.symm

theorem carried_eq (h : ∀ x ∈ s.modifiers, m.Accounted C x) : s.script.carried =
    s.passed.map fun (x, text) => m.modifierName x ++ ": " ++ text := by
  rw [StepConstraints.script_eq, StepConstraints.passed, List.map_flatMap]
  refine List.flatMap_congr fun x hx => ?_
  simp only [List.map_map, (h x hx).name]
  rfl

theorem assemble_error {script : Script} {err : CarriedTexts} :
    script.assemble = .error err ↔ script.carried ≠ [] ∧ err = ⟨script.carried⟩ := by
  unfold Script.assemble
  cases script.carried with
  | nil => simp
  | cons text texts => simp [eq_comm]

theorem Step.accounts (h : m.Step options e dt C s) (hm : m.WellFormed) (hC : C.Genuine) :
    m.Accounts C s := by
  obtain ⟨t, -, hencodes⟩ := h.encodes
  have haccounted := accounted_of_encodes hC hencodes
  have hcarried := carried_eq haccounted
  refine ⟨hencodes.body, ?_, ?_⟩
  · have hsome : s.script.carried ≠ [] ↔ s.passed ≠ [] := by
      rw [hcarried, ne_eq, List.map_eq_nil_iff]
    simp only [assemble_error, hsome, exists_and_left, exists_eq, and_true]
    constructor
    · intro hne
      obtain ⟨⟨x, text⟩, hmem⟩ := List.exists_mem_of_ne_nil _ hne
      obtain ⟨hx, hloses⟩ := (mem_passed haccounted).1 hmem
      exact ⟨x, hx, text, hloses⟩
    · rintro ⟨x, hx, text, hloses⟩
      exact List.ne_nil_of_mem ((mem_passed haccounted).2 ⟨hx, hloses⟩)
  · intro err herr
    obtain ⟨-, rfl⟩ := assemble_error.1 herr
    exact ⟨s.passed, nodup_passed haccounted (nodup_of_opens hm h.opens),
      fun x text => mem_passed haccounted, hcarried⟩

/-- **Nothing that is passed through is lost.** A body that is encoded passes through each text once
that it loses and no other, and a step can be assembled if and only if its bodies lose nothing. The
error has one text for each modifier and each text that it loses. -/
theorem losses_reported :
    (∀ (c : Context) (body : List Node) (t : SymbolTable) (r : BodyConstraints) (p : Progress),
      FormedList body → c.encodeBody body { table := t } = .ok r p →
        r.passthrough.Nodup ∧ ∀ text, text ∈ r.passthrough ↔ Node.Loses body text) ∧
    (∀ (text : String) (f : UpdateFunction), UpdateFunction.read text = .ok f →
      FormedList f.body) ∧
    ∀ (m : Model) (options : Options) (e : EntityId) (dt : Option Rat) (uses : List CacheUse)
      (s : StepConstraints) (C : BodyCache), m.Built →
        m.step options e dt (uses.foldl CacheUse.run {}) = .ok s C → m.Accounts C s := by
  refine ⟨fun c body t r p hbody h => Context.encodeBody_passthrough hbody rfl h,
    fun text f h => UpdateFunction.formed_of_read h, fun m options e dt uses s C hm h => ?_⟩
  have hgenuine : (Stateful.final (m.step options e dt (uses.foldl CacheUse.run {}))).Genuine :=
    step_keeps (fun c text hc => hc.read text) m options e dt _ (CacheUse.genuine_run uses)
  rw [h] at hgenuine
  exact (step_ok hm.wellFormed h).accounts hm.wellFormed hgenuine

/-- An update that says more than can be encoded. -/
def notingDefinition : ModelDefinition where
  resources := [⟨"num", none, .named "real"⟩]
  entity := .mk "e" [⟨"p", .internal, "num", .number (.int 0)⟩] ["s"] none
    [⟨"u", "s", "p", "|s, dt| \x7b note(s.p.value); let x = s.p.value; " ++
      "if dt > 1.0 \x7b note(x); note(s.p.value); *guess() \x7d else \x7b x \x7d \x7d"⟩] [] []

/-- What the update says besides is reported, each text once. -/
theorem noting_losses_reported : ∃ m e f r p s C, notingDefinition.build = .ok (m, e) ∧
    UpdateFunction.read (m.update ⟨0⟩).function = .ok f ∧
    (updateContext m {} ⟨0⟩ f).encodeBody f.body { table := .fresh "dt" } = .ok r p ∧
    (∀ text, text ∈ r.passthrough ↔ Node.Loses f.body text) ∧
    m.step {} e none {} = .ok s C ∧ m.Accounts C s ∧
    s.script.assemble =
      .error ⟨["e.u: note (s . p . value)", "e.u: note (x)", "e.u: guess ()"]⟩ := by
  have h : Attempt.succeeds (fun built => Attempt.succeeds (fun f =>
      Stateful.succeeds (fun _ _ => Stateful.succeeds (fun s _ =>
          s.script.carried = ["e.u: note (s . p . value)", "e.u: note (x)", "e.u: guess ()"])
        (built.1.encodeStepDown {} 1 built.2 none ⟨.fresh "dt", {}⟩))
      ((updateContext built.1 {} ⟨0⟩ f).encodeBody f.body { table := .fresh "dt" }))
      (UpdateFunction.read (built.1.update ⟨0⟩).function)) notingDefinition.build := by
    decide +kernel
  obtain ⟨⟨m, e⟩, hbuild, h⟩ := Attempt.exists_of_succeeds h
  obtain ⟨f, hf, h⟩ := Attempt.exists_of_succeeds h
  obtain ⟨r, p, hr, h⟩ := Stateful.exists_of_succeeds h
  obtain ⟨s, q, hs, h⟩ := Stateful.exists_of_succeeds h
  have hcarried := of_decide_eq_true h
  have hstep := step_ok_of_down hs
  obtain ⟨hbodies, hformed, hsteps⟩ := losses_reported
  have hlost := (hbodies _ _ _ r p (hformed _ f hf) hr).2
  exact ⟨m, e, f, r, p, s, q.cache, hbuild, hf, hr, hlost, hstep,
    hsteps m {} e none [] s q.cache (ModelDefinition.build_built hbuild).1 hstep,
    assemble_error.2 ⟨by rw [hcarried]; simp, by rw [hcarried]⟩⟩

end Model

end HybridStep
