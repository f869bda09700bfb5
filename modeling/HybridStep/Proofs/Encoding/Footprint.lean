import HybridStep.Proofs.Model.Described
import HybridStep.Proofs.Model.Outline

/-! # The footprint of an update

The ports that the body of an update reads, those that it assigns, and its target. In two situations
that agree on the values of these ports and on whether earlier modifiers have written them, an
update is encoded to the same constraints or fails with the same error, and the same ports are noted
for the first time. The situations may be of two models with one outline. -/

namespace HybridStep

/-- The ports that an update reads or assigns, and its target. -/
def footprint (m : Model) (options : Options) (u : UpdateId) (f : UpdateFunction) : List PortId :=
  (accessedPorts m (m.update u).entity f).toList ++
    (Node.writesOfList (updateContext m options u f).key? f.body).filterMap Context.portOfKey? ++
      [(m.update u).target]

variable {m m₁ : Model} {options : Options} {u : UpdateId} {f : UpdateFunction} {q : PortId}
variable {t t₁ : SymbolTable}

/-- What a body uses is in its footprint. -/
theorem mem_footprint_of_uses (h : UsesPort m options u f q) : q ∈ footprint m options u f := by
  simp only [footprint, List.append_assoc, List.mem_append, List.mem_singleton]
  refine h.imp_right fun hq => ?_
  change q ∈ Context.portsWritten (updateContext m options u f) f.body at hq
  have htarget : (updateContext m options u f).target = some (m.update u).target := rfl
  simp only [Context.portsWritten, htarget] at hq
  split at hq
  · exact (OrderedSet.mem_insert.1 hq).imp_left OrderedSet.mem_ofList.1
  · exact .inl (OrderedSet.mem_ofList.1 hq)

/-! ### Values of ports before the step -/

theorem priorTerm_eq (houtline : m.outline = m₁.outline)
    (hvalue : (m.port q).value = (m₁.port q).value) :
    SymbolTable.priorTerm m q = SymbolTable.priorTerm m₁ q := by
  have hport : m.outline.port q = m₁.outline.port q := by rw [houtline]
  have hsort : m.sortOfPort q = m₁.sortOfPort q := by
    rw [← m.sortOfPort_outline, ← m₁.sortOfPort_outline, houtline]
  rw [m.port_outline, m₁.port_outline] at hport
  have hname : (m.port q).name = (m₁.port q).name := by simpa using congrArg Port.name hport
  simp only [SymbolTable.priorTerm, hvalue, hsort, hname]

/-- Two situations agree on a port: it has the same value before the step, and has been written in
both or in neither. -/
structure AgreeOn (m m₁ : Model) (t t₁ : SymbolTable) (q : PortId) : Prop where
  value : (m.port q).value = (m₁.port q).value
  written : q ∈ t.written ↔ q ∈ t₁.written

theorem AgreeOn.entersAlike (h : AgreeOn m m₁ t t₁ q) (houtline : m.outline = m₁.outline) :
    (bodyContext m options u f).EntersAlike (bodyContext m₁ options u f) t.entry t₁.entry q := by
  have hversion : SymbolTable.entryVersion t.entry.written q =
      SymbolTable.entryVersion t₁.entry.written q := by
    by_cases hq : q ∈ t₁.written <;>
      simp [SymbolTable.entryVersion, SymbolTable.entry, h.written, hq]
  have hmodel : SymbolTable.portTerm m q (SymbolTable.entryVersion t₁.entry.written q) =
      SymbolTable.portTerm m₁ q (SymbolTable.entryVersion t₁.entry.written q) := by
    by_cases hprior : SymbolTable.entryVersion t₁.entry.written q = .prior
    · rw [hprior, SymbolTable.portTerm, SymbolTable.portTerm, if_pos rfl, if_pos rfl,
        priorTerm_eq houtline h.value]
    · exact (bodyContext_matches houtline options u f).term hprior
  rw [Context.EntersAlike, hversion]
  exact hmodel

/-- What a body becomes depends on the footprint alone. -/
theorem plainBody_footprint (houtline : m.outline = m₁.outline) (hstep : t.stepName = t₁.stepName)
    (h : ∀ q ∈ footprint m options u f, AgreeOn m m₁ t t₁ q) :
    (bodyContext m options u f).plainBody t.entry f.body =
      (bodyContext m₁ options u f).plainBody t₁.entry f.body := by
  have huses : ∀ q, UsesPort m options u f q →
      (bodyContext m options u f).EntersAlike (bodyContext m₁ options u f) t.entry t₁.entry q :=
    fun q hq => (h q (mem_footprint_of_uses hq)).entersAlike houtline
  refine Context.Agree.trace (fun q hq => huses q (.inr hq)) _ _
    ⟨bodyContext_matches houtline options u f, hstep, fun hin hkey => huses _ (.inl ?_)⟩
  exact mem_accessedPorts (Flow.reads_ofBody _ hin) hkey

/-! ### Updates -/

theorem Earlier.stepName {x : Modifier} (h : Earlier m options x t) :
    t.stepName = options.stepName := by
  induction h with
  | fresh => rfl
  | seed _ hseed ih => exact (seedPorts_grows hseed).stepName.trans ih
  | update _ _ he ih => exact (encodeUpdate_extends he).stepName.trans ih
  | influence _ he ih => exact (encodeInfluence_extends he).stepName.trans ih

/-- The ports that an encoding notes for the first time. -/
def NewlyWritten {ε α : Type} (t : SymbolTable) (result : EStateM.Result ε SymbolTable α)
    (q : PortId) : Prop :=
  q ∈ (Stateful.final result).written ∧ q ∉ t.written

/-- **An update sees its footprint only.** -/
theorem encodeUpdate_footprint (houtline : m.outline = m₁.outline)
    (ht : Earlier m options (.update u) t) (ht₁ : Earlier m₁ options (.update u) t₁)
    (h : ∀ q ∈ footprint m options u f, AgreeOn m m₁ t t₁ q) :
    Stateful.outcome (encodeUpdate m options u f t) =
        Stateful.outcome (encodeUpdate m₁ options u f t₁) ∧
      ∀ q, NewlyWritten t (encodeUpdate m options u f t) q ↔
        NewlyWritten t₁ (encodeUpdate m₁ options u f t₁) q := by
  have hplain := plainBody_footprint houtline (ht.stepName.trans ht₁.stepName.symm) h
  have hsettled : (bodyContext m options u f).Settled t.entry { table := t } := ht.tidy.settled
  have hsettled₁ : (bodyContext m₁ options u f).Settled t₁.entry { table := t₁ } :=
    ht₁.tidy.settled
  have hcases := encodeUpdate_cases hsettled
  have hcases₁ := encodeUpdate_cases hsettled₁
  rw [← hplain] at hcases₁
  cases hbody : (bodyContext m options u f).plainBody t.entry f.body with
  | error e =>
    rw [hbody] at hcases hcases₁
    obtain ⟨t', ht', hwritten⟩ := hcases
    obtain ⟨t₁', ht₁', hwritten₁⟩ := hcases₁
    rw [ht', ht₁']
    refine ⟨rfl, fun q => ?_⟩
    simp [NewlyWritten, Stateful.final, hwritten, hwritten₁]
  | ok tr =>
    rw [hbody] at hcases hcases₁
    obtain ⟨t', ht'⟩ := hcases
    obtain ⟨t₁', ht₁'⟩ := hcases₁
    have hports : (bodyContext m options u f).writtenPorts =
        (bodyContext m₁ options u f).writtenPorts :=
      (bodyContext_matches houtline options u f).writtenPorts
    rw [ht', ht₁']
    refine ⟨rfl, fun q => ?_⟩
    simp only [NewlyWritten, Stateful.final, encodeUpdate_written ht', encodeUpdate_written ht₁',
      ← hports, or_and_right, and_not_self, false_or]
    refine and_congr_right fun hq => ?_
    rw [(h q (mem_footprint_of_uses (.inr hq))).written]

/-- The tank with another inflow and another level. -/
def fullTankDefinition : ModelDefinition :=
  { tankDefinition with
    entity :=
      match tankDefinition.entity with
      | .mk name _ states current updates influences subentities =>
        .mk name [⟨"inflow", .input, "height", .number (.int 7)⟩,
          ⟨"level", .internal, "height", .number (.int 9)⟩]
          states current updates influences subentities }

/-- The gauge does not see how full the tank is, nor whether it has been filled. -/
theorem watch_footprint : ∃ m e m₁ e₁ watch t t₁, tankDefinition.build = .ok (m, e) ∧
    fullTankDefinition.build = .ok (m₁, e₁) ∧
    UpdateFunction.read (m.update ⟨0⟩).function = .ok watch ∧
    (m.port ⟨1⟩).value ≠ (m₁.port ⟨1⟩).value ∧ ⟨1⟩ ∉ t.written ∧ ⟨1⟩ ∈ t₁.written ∧
    Stateful.outcome (encodeUpdate m {} ⟨0⟩ watch t) =
      Stateful.outcome (encodeUpdate m₁ {} ⟨0⟩ watch t₁) ∧
    ∀ q, NewlyWritten t (encodeUpdate m {} ⟨0⟩ watch t) q ↔
      NewlyWritten t₁ (encodeUpdate m₁ {} ⟨0⟩ watch t₁) q := by
  have h : Attempt.succeeds (fun (m, e) => Attempt.succeeds (fun (m₁, e₁) =>
      Attempt.succeeds (fun fill => Attempt.succeeds (fun watch =>
        Stateful.succeeds (fun _ s => Stateful.succeeds (fun _ t =>
          Stateful.succeeds (fun _ s₁ => Stateful.succeeds (fun _ s₂ =>
            Stateful.succeeds (fun _ t₁ =>
              m.outline = m₁.outline ∧ (m.port ⟨1⟩).value ≠ (m₁.port ⟨1⟩).value ∧
                ⟨1⟩ ∉ t.written ∧ ⟨1⟩ ∈ t₁.written ∧
                ∀ q ∈ footprint m {} ⟨0⟩ watch,
                  (m.port q).value = (m₁.port q).value ∧ (q ∈ t.written ↔ q ∈ t₁.written))
              (encodeInfluence m₁ ⟨0⟩ s₂)) (encodeUpdate m₁ {} ⟨1⟩ fill s₁))
            (Tabled.seed m₁ e₁ (.fresh "dt")))
          (encodeInfluence m ⟨0⟩ s)) (Tabled.seed m e (.fresh "dt")))
        (UpdateFunction.read (m.update ⟨0⟩).function))
        (UpdateFunction.read (m.update ⟨1⟩).function))
      fullTankDefinition.build) tankDefinition.build := by decide +kernel
  obtain ⟨⟨m, e⟩, hbuild, h⟩ := Attempt.exists_of_succeeds h
  obtain ⟨⟨m₁, e₁⟩, hbuild₁, h⟩ := Attempt.exists_of_succeeds h
  obtain ⟨fill, -, h⟩ := Attempt.exists_of_succeeds h
  obtain ⟨watch, hwatch, h⟩ := Attempt.exists_of_succeeds h
  obtain ⟨_, s, hseed, h⟩ := Stateful.exists_of_succeeds h
  obtain ⟨_, t, hmeasure, h⟩ := Stateful.exists_of_succeeds h
  obtain ⟨_, s₁, hseed₁, h⟩ := Stateful.exists_of_succeeds h
  obtain ⟨_, s₂, hfill₁, h⟩ := Stateful.exists_of_succeeds h
  obtain ⟨_, t₁, hmeasure₁, h⟩ := Stateful.exists_of_succeeds h
  obtain ⟨houtline, hvalue, hbefore, hafter, hagree⟩ := of_decide_eq_true h
  have ht : Earlier m {} (.update ⟨0⟩) t := (Earlier.fresh.seed hseed).influence hmeasure
  have ht₁ : Earlier m₁ {} (.update ⟨0⟩) t₁ :=
    ((Earlier.fresh.seed hseed₁).update (by decide) hfill₁).influence hmeasure₁
  exact ⟨m, e, m₁, e₁, watch, t, t₁, hbuild, hbuild₁, hwatch, hvalue, hbefore, hafter,
    encodeUpdate_footprint houtline ht ht₁ fun q hq => ⟨(hagree q hq).1, (hagree q hq).2⟩⟩

end HybridStep
