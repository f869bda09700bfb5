import HybridStep.Proofs.Step.Run
import HybridStep.Proofs.Step.Unfolding

/-! # Writers before readers

Any two different modifiers of a step part at an entity: one part of it holds the first of them,
another part the second. If the one part declares to write a port that the other declares to read,
the first modifier is listed before the second, and what the second finds of the port is its
post-step variable. The order knows no more than what is declared: a modifier that writes a port
besides may be listed after one that reads it, be it a port that a body assigns besides its target,
the target of an update that the update itself reads, or a port of a subentity that is neither an
input nor an output. -/

namespace HybridStep.Model

open SymbolTable

variable {m : Model} {options : Options} {C : BodyCache} {e a : EntityId} {q : PortId}
variable {xs : List Modifier} {x y w r : Modifier}

/-- Two modifiers are held by parts of an entity inside another one. -/
structure PartAt (m : Model) (e a : EntityId) (x y w r : Modifier) : Prop where
  inside : m.Within e a
  first : x ∈ m.parts a
  second : y ∈ m.parts a
  holdsFirst : m.Holds x w
  holdsSecond : m.Holds y r

/-- **Different modifiers part somewhere**: they are held by different parts of an entity. -/
theorem exists_partAt (hm : m.WellFormed) (h : Opens m C e xs) (hw : w ∈ xs) (hr : r ∈ xs)
    (hne : w ≠ r) : ∃ a x y, x ≠ y ∧ m.PartAt e a x y w r := by
  induction h with
  | @order e ms inner horder hinner ih =>
    obtain ⟨x, hx, hwx⟩ := List.mem_flatMap.1 hw
    obtain ⟨y, hy, hry⟩ := List.mem_flatMap.1 hr
    by_cases hxy : x = y
    · -- one part lists both of them, so it is a subentity
      subst hxy
      cases x with
      | update | influence =>
        exact absurd ((List.mem_singleton.1 hwx).trans (List.mem_singleton.1 hry).symm) hne
      | subentity s =>
        obtain ⟨a, x, y, hxy, hpart⟩ := ih s hx hwx hry
        have hs := within_of_subentity hm (mem_parts_subentity.1 (horder.mem.1 hx))
        exact ⟨a, x, y, hxy, { hpart with inside := hs.trans hpart.inside }⟩
    · exact ⟨e, x, y, hxy, .self, horder.mem.1 hx, horder.mem.1 hy,
        holds_of_opened hm hinner hx hwx, holds_of_opened hm hinner hy hry⟩

/-- **Writers are listed before readers**, wherever inside the entity they part. -/
theorem writer_before_of_opens (hm : m.WellFormed) (h : Opens m C e xs) (hw : w ∈ xs) (hr : r ∈ xs)
    (hpart : m.PartAt e a x y w r) (hwrite : q ∈ m.declaredWrites x)
    (hread : q ∈ m.declaredReads (m.readsIn C) y) :
    ∃ before after, xs = before ++ r :: after ∧ w ∈ before := by
  obtain ⟨ha, hx, hy, hxw, hyr⟩ := hpart
  induction h with
  | @order e ms inner horder hinner ih =>
    obtain ⟨z, hz, hwz⟩ := List.mem_flatMap.1 hw
    have hzparts := horder.mem.1 hz
    rcases eq_or_inside_of_holds hm ha hzparts (holds_of_opened hm hinner hz hwz) hx hxw with
      rfl | ⟨s, rfl, hsa⟩
    · -- the entity whose order this is
      obtain ⟨l, r', hms, hxl⟩ :=
        horder.writer_before (horder.mem.2 hx) (horder.mem.2 hy) hwrite hread
      obtain ⟨before, after, hry⟩ :=
        List.append_of_mem (opened_of_holds hm horder hinner hy hyr hr)
      refine ⟨l.flatMap (Modifier.opened inner) ++ before,
        after ++ r'.flatMap (Modifier.opened inner), ?_, List.mem_append_left _ ?_⟩
      · rw [hms, List.flatMap_append, List.flatMap_cons, hry]
        simp
      · exact List.mem_flatMap.2 ⟨x, hxl, opened_of_holds hm horder hinner hx hxw hw⟩
    · -- an entity inside a subentity, which lists both of them
      obtain ⟨b, hb, hrb⟩ := hyr.belongs hm hy
      obtain ⟨before, after, hinside, hbefore⟩ := ih s hz hwz
        (opened_of_holds hm horder hinner hzparts (.inr ⟨s, b, rfl, hsa.trans hb, hrb⟩) hr) hsa
      obtain ⟨l, r', hms⟩ := List.append_of_mem hz
      refine ⟨l.flatMap (Modifier.opened inner) ++ before,
        after ++ r'.flatMap (Modifier.opened inner), ?_, List.mem_append_right _ hbefore⟩
      rw [hms, List.flatMap_append, List.flatMap_cons, Modifier.opened, hinside]
      simp

/-- What a reader of a port finds when the port has been written. -/
theorem entryValue_of_written {t T : SymbolTable} {term : Term} (hT : t.Extends T)
    (hwritten : T.written = t.written) (hq : q ∈ t.written)
    (hterm : t.get? (.port q) .current = some term) : T.entryValue m q = .ok (term, T) := by
  rw [entryValue, hwritten, if_pos hq, SymbolTable.port, hT.kept hterm]

/-- A modifier is listed after another one, and if that one writes a port, then the table on which
the modifier is encoded gives the port its post-step variable. -/
def ReadsAfter (m : Model) (options : Options) (e : EntityId) (C : BodyCache) (s : StepConstraints)
    (w r : Modifier) (q : PortId) : Prop :=
  ∃ before now after t₀ t, s.modifiers = before ++ now :: after ∧ now.modifier = r ∧
    w ∈ before.map (·.modifier) ∧ Tabled.seed m e (.fresh options.stepName) = .ok () t₀ ∧
    Encodes m options C t₀ before t ∧ Encodes m options C t (now :: after) s.table ∧
    (q ∈ m.writtenBy options C w → ∀ T : SymbolTable, t.Extends T → T.written = t.written →
      T.entryValue m q = .ok (.var (m.postStep q), T))

/-- **No declared reader is stale.** Any two different modifiers of a step part somewhere. If the
part with the first one declares to write a port and the part with the second one declares to read
it, then the second one is listed after the first one and reads what that one has written. -/
theorem declared_reader_after_writer (hm : m.Built) {d : Option Rat} {cache : BodyCache}
    {s : StepConstraints} (h : m.step options e d cache = .ok s C)
    (hw : w ∈ s.modifiers.map (·.modifier)) (hr : r ∈ s.modifiers.map (·.modifier)) :
    (w ≠ r → ∃ a x y, x ≠ y ∧ m.PartAt e a x y w r) ∧
    ∀ {a x y q}, m.PartAt e a x y w r → q ∈ m.declaredWrites x →
      q ∈ m.declaredReads (m.readsIn C) y → m.ReadsAfter options e C s w r q := by
  have hstep := step_ok hm.wellFormed h
  refine ⟨exists_partAt hm.wellFormed hstep.opens hw hr, fun hpart hwrite hread => ?_⟩
  obtain ⟨before, after, hlist, hbefore⟩ :=
    writer_before_of_opens hm.wellFormed hstep.opens hw hr hpart hwrite hread
  obtain ⟨xs, zs, hmods, rfl, hzs⟩ := List.map_eq_append_iff.1 hlist
  obtain ⟨now, ys, rfl, hnow, -⟩ := List.map_eq_cons_iff.1 hzs
  obtain ⟨t₀, hseed, henc⟩ := hstep.encodes
  rw [hmods] at henc
  obtain ⟨t, hxs, hys⟩ := henc.split
  refine ⟨xs, now, ys, t₀, t, hmods, hnow, hbefore, hseed, hxs, hys, fun hq T hT hwritten => ?_⟩
  obtain ⟨hin, term, hterm⟩ := hxs.present hbefore hq
  obtain rfl := (hxs.canonical (seeded hseed).1).postStep hterm
  exact entryValue_of_written hT hwritten hin hterm

/-- In a step of the tank the gauge, whose input is its reading, is watched after the
measurement. -/
theorem watch_after_measure : ∃ m e s cache, tankDefinition.build = .ok (m, e) ∧
    m.step {} e (some 1) {} = .ok s cache ∧ ⟨2⟩ ∈ m.writtenBy {} cache (.influence ⟨0⟩) ∧
      m.PartAt e e (.influence ⟨0⟩) (.subentity ⟨1⟩) (.influence ⟨0⟩) (.update ⟨0⟩) ∧
      m.ReadsAfter {} e cache s (.influence ⟨0⟩) (.update ⟨0⟩) ⟨2⟩ := by
  obtain ⟨m, e, s, cache, hbuild, hstep, htank⟩ := tank_step
  have hwrite : ⟨2⟩ ∈ m.declaredWrites (.influence ⟨0⟩) := by simp [htank.measures]
  have hread : ⟨2⟩ ∈ m.declaredReads (m.readsIn cache) (.subentity ⟨1⟩) := by simp [htank.reading]
  have hpart : m.PartAt e e (.influence ⟨0⟩) (.subentity ⟨1⟩) (.influence ⟨0⟩) (.update ⟨0⟩) :=
    ⟨.self, by simp [htank.parts], by simp [htank.parts], .inl rfl,
      .inr ⟨_, _, rfl, .self, by simp [htank.gauge]⟩⟩
  refine ⟨m, e, s, cache, hbuild, hstep, hwrite, hpart, ?_⟩
  exact (declared_reader_after_writer (ModelDefinition.build_built hbuild).1 hstep
    (by simp [htank.listed]) (by simp [htank.listed])).2 hpart hwrite hread

/-! ### Undeclared readers and writers -/

/-- The ports that a modifier reads, with the bodies of a cache. -/
def readBy (m : Model) (C : BodyCache) : Modifier → List PortId
  | .update u => m.readsIn C u
  | .influence i => [(m.influence i).source]
  | .subentity _ => []

/-- Every modifier that writes a port stands before all others that read it. -/
def WritersFirst (m : Model) (options : Options) (C : BodyCache) (xs : List Modifier) : Prop :=
  xs.Pairwise fun x y => ∀ q ∈ m.writtenBy options C y, q ∉ m.readBy C x

instance : Decidable (m.WritersFirst options C xs) :=
  inferInstanceAs (Decidable (List.Pairwise _ _))

/-- In a step of the model that is described, a modifier stands before another one that writes what
it reads. -/
def StaleStep (d : ModelDefinition) : Prop :=
  ∃ m e s cache, d.build = .ok (m, e) ∧ m.step {} e none {} = .ok s cache ∧
    ¬ m.WritersFirst {} cache (s.modifiers.map (·.modifier))

theorem staleStep_of_down {d : ModelDefinition}
    (h : Attempt.succeeds (fun (m, e) => Stateful.succeeds
      (fun s p => ¬ m.WritersFirst {} p.cache (s.modifiers.map (·.modifier)))
      (m.encodeStepDown {} 2 e none ⟨.fresh "dt", {}⟩)) d.build) : StaleStep d := by
  obtain ⟨⟨m, e⟩, hbuild, h⟩ := Attempt.exists_of_succeeds h
  obtain ⟨s, p, hdown, h⟩ := Stateful.exists_of_succeeds h
  exact ⟨m, e, s, p.cache, hbuild, step_ok_of_down hdown, of_decide_eq_true h⟩

/-- An update that reads its target, which an influence writes. -/
def ownTargetDefinition : ModelDefinition where
  resources := [⟨"num", none, .named "integer"⟩]
  entity := .mk "e"
    [⟨"a", .input, "num", .number (.int 0)⟩, ⟨"p", .output, "num", .number (.int 0)⟩]
    ["s"] none [⟨"u", "s", "p", "|s, dt| s.p.value + 1"⟩] [⟨"i", "a", "p"⟩] []

/-- An update that reads a port which another one assigns besides its target. -/
def sideAssignmentDefinition : ModelDefinition where
  resources := [⟨"num", none, .named "integer"⟩]
  entity := .mk "e"
    [⟨"a", .input, "num", .number (.int 0)⟩, ⟨"p", .internal, "num", .number (.int 0)⟩,
      ⟨"q", .internal, "num", .number (.int 0)⟩, ⟨"r", .internal, "num", .number (.int 0)⟩]
    ["s"] none
    [⟨"reader", "s", "q", "|s, dt| s.r.value + 1"⟩,
      ⟨"writer", "s", "p", "|s, dt| \x7b s.r.value = 5; s.a.value \x7d"⟩] [] []

/-- An update that reads an internal port of a subentity. -/
def innerPortDefinition : ModelDefinition where
  resources := [⟨"num", none, .named "integer"⟩]
  entity := .mk "e" [⟨"q", .internal, "num", .number (.int 0)⟩] ["s"] none
    [⟨"reader", "s", "q", "|s, dt| s.sub.h.value + 1"⟩] []
    [.mk "sub"
      [⟨"a", .input, "num", .number (.int 0)⟩, ⟨"h", .internal, "num", .number (.int 0)⟩]
      ["s"] none [⟨"writer", "s", "h", "|s, dt| 3"⟩] [] []]

/-- Readers that are not declared may be stale. -/
theorem undeclared_readers_stale :
    StaleStep ownTargetDefinition ∧ StaleStep sideAssignmentDefinition ∧
      StaleStep innerPortDefinition := by
  refine ⟨staleStep_of_down ?_, staleStep_of_down ?_, staleStep_of_down ?_⟩
  · decide +kernel
  · decide +kernel
  · decide +kernel

end HybridStep.Model
