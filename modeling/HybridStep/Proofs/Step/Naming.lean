import HybridStep.Proofs.Smt.Conflicts
import HybridStep.Proofs.Smt.Declarations
import HybridStep.Proofs.Step.Identity

/-! # Names of the script of a step

The names in the script of a step come from resources, from tags and from handles. Handles of ports
and locals end in the number of their owner, so that they are never words that mean something else,
and different ports and different owners never share a symbol. Names of resources and tags are taken
as they are, and so is the name of the time step. The conflicts that are left are exactly those that
these three make, and those of locals whose names only differ in bars. -/

namespace HybridStep

open SymbolTable

variable {m : Model} {options : Options} {C : BodyCache} {e : EntityId}

/-! ### Names without bars -/

namespace Symbol

theorem unbar_append (a b : String) : unbar (a ++ b) = unbar a ++ unbar b := by
  simp [unbar, String.ofList_append]

theorem bar_not_mem_toString (n : Nat) : '|' ∉ (toString n).toList := fun h =>
  absurd (isDigit_of_mem_toString h) (by decide)

theorem bar_not_mem_lettered {a : String} (ha : '|' ∉ a.toList) (n : Nat) :
    '|' ∉ (a ++ toString n).toList := by
  rw [String.toList_append, List.mem_append, not_or]
  exact ⟨ha, bar_not_mem_toString n⟩

theorem bar_not_mem_port (q : PortId) : '|' ∉ q.text.toList := bar_not_mem_lettered (by decide) _

theorem bar_not_mem_modifier (x : Modifier) : '|' ∉ x.text.toList := by
  cases x <;> exact bar_not_mem_lettered (by decide) _

/-- Only the base of a name of a version can have bars. -/
theorem unbar_symbolName {owner : String} (ho : '|' ∉ owner.toList) (n : String) (v : Version) :
    unbar (symbolName n v owner) = symbolName (unbar n) v owner := by
  have hmark : unbar "_" = "_" := rfl
  cases v with
  | current => simp only [symbolName, unbar_append, hmark, unbar_of_no_bar ho]
  | index k =>
    simp only [symbolName, unbar_append, hmark, unbar_of_no_bar ho,
      unbar_of_no_bar (bar_not_mem_toString k)]

/-- Whether a word ends in a digit. -/
def endsInDigit (s : String) : Bool := s.toList.getLast?.any Ascii.isDigit

/-- Words that mean something do not end in a digit. -/
theorem isFree_of_endsInDigit {s : String} (h : endsInDigit s) : IsFree s := by
  have hreserved : (reservedWords.all fun w => !endsInDigit w) = true := rfl
  have hpredefined : (predefined.all fun w => !endsInDigit w) = true := rfl
  have hnot {words : List String} (hw : (words.all fun w => !endsInDigit w) = true) :
      s ∉ words := by
    intro hs
    have hs' := List.all_eq_true.1 hw s hs
    simp [h] at hs'
  exact ⟨hnot hreserved, hnot hpredefined⟩

theorem endsInDigit_append_toString (a : String) (n : Nat) : endsInDigit (a ++ toString n) := by
  rw [endsInDigit, String.toList_append, List.getLast?_append]
  cases hlast : (toString n).toList.getLast? with
  | none =>
    rw [List.getLast?_eq_none_iff, Nat.toString_eq_repr, Nat.toList_repr] at hlast
    exact absurd hlast Nat.toDigits_ne_nil
  | some c => exact isDigit_of_mem_toString (List.mem_of_getLast? hlast)

/-- The name of a version ends in the number of its owner. -/
theorem isFree_symbolName (n a : String) (v : Version) (k : Nat) :
    IsFree (symbolName n v (a ++ toString k)) := by
  obtain ⟨b, hb⟩ : ∃ b, symbolName n v (a ++ toString k) = b ++ toString k := by
    cases v with
    | current => exact ⟨n ++ "_" ++ a, by simp [symbolName, String.append_assoc]⟩
    | index j =>
      exact ⟨n ++ "_" ++ toString j ++ "_" ++ a, by simp [symbolName, String.append_assoc]⟩
  exact hb ▸ isFree_of_endsInDigit (endsInDigit_append_toString b k)

end Symbol

/-! ### Symbols of handles -/

namespace Model

variable {key key' : SymbolKey} {v v' : Version} {stepName : String}
variable {s : StepConstraints}

/-- The symbol of a handle other than the step is that of its name without bars. -/
theorem unbar_symbolText (m : Model) (stepName : String) (key : SymbolKey) (v : Version) :
    Symbol.unbar (m.symbolText stepName key v) = match key with
      | .step => Symbol.unbar stepName
      | .port q => symbolName (Symbol.unbar (m.port q).name) v q.text
      | .local n owner => symbolName (Symbol.unbar n) v owner.text := by
  cases key with
  | step => rfl
  | port q => exact Symbol.unbar_symbolName (Symbol.bar_not_mem_port q) _ v
  | «local» n owner => exact Symbol.unbar_symbolName (Symbol.bar_not_mem_modifier owner) _ v

/-- Symbols of ports and locals mean nothing else. -/
theorem isFree_symbolText (hkey : key ≠ .step) :
    Symbol.IsFree (Symbol.unbar (m.symbolText stepName key v)) := by
  rw [unbar_symbolText]
  cases key with
  | step => exact absurd rfl hkey
  | port q => exact Symbol.isFree_symbolName _ "p" v q.index
  | «local» n owner =>
    cases owner <;> exact Symbol.isFree_symbolName _ _ v _

/-- No other version of a port has its symbol, and no other handle but the step. -/
theorem eq_of_unbar_symbolText {q : PortId} (hkey : key ≠ .step)
    (h : Symbol.unbar (m.symbolText stepName (.port q) v) =
      Symbol.unbar (m.symbolText stepName key v')) : key = .port q ∧ v' = v := by
  rw [unbar_symbolText, unbar_symbolText] at h
  have hq := underscore_not_mem_port q
  cases key with
  | step => exact absurd rfl hkey
  | port q' =>
    obtain rfl := PortId.text_inj (owner_of_symbolName hq (underscore_not_mem_port q') h)
    exact ⟨rfl, (version_of_symbolName hq h).symm⟩
  | «local» n owner =>
    exact absurd (owner_of_symbolName hq (underscore_not_mem_modifier owner) h)
      (port_text_ne_modifier_text q owner)

/-! ### Conflicts -/

/-- A name that the handle of a local has. -/
def IsLocal (s : StepConstraints) (n : String) : Prop :=
  ∃ name owner v x, s.table.get? (.local name owner) v = some (.var x) ∧ x.name = n

/-- The names of a step cause no conflict where nothing keeps them from it.

* `enums`: the enumerations that are used and their variants have different symbols;
* `enums_free`: these mean nothing else and are no symbols of variables;
* `step_free`, `step_apart`: if the time step is used, its symbol means nothing else and is that of
  no other variable;
* `locals`: the names of locals do not only differ in bars. -/
structure NamesApart (options : Options) (s : StepConstraints) : Prop where
  enums : s.script.enumSymbols.Nodup
  enums_free {x : String} : x ∈ s.script.enumSymbols →
    Symbol.IsFree x ∧ x ∉ s.script.variableSymbols
  step_free : options.stepName ∈ s.script.vars.keys → Symbol.IsFree (Symbol.unbar options.stepName)
  step_apart {n : String} : options.stepName ∈ s.script.vars.keys → n ∈ s.script.vars.keys →
    Symbol.unbar n = Symbol.unbar options.stepName → n = options.stepName
  locals {n n' : String} : n ∈ s.script.vars.keys → n' ∈ s.script.vars.keys → IsLocal s n →
    IsLocal s n' → Symbol.unbar n = Symbol.unbar n' → n = n'

/-- Every name of the script of a step is that of a handle. -/
theorem Step.handle_of_mem_keys {d : Option Rat} (h : m.Step options e d C s) {n : String}
    (hn : n ∈ s.script.vars.keys) : ∃ key v x, s.table.get? key v = some (.var x) ∧ x.name = n ∧
      n = m.symbolText options.stepName key v := by
  obtain ⟨x, hx, rfl⟩ := Script.mem_keys.1 hn
  obtain ⟨key, v, hget⟩ := h.has_of_mem_vars hx
  obtain ⟨t, hseed, henc⟩ := h.encodes
  have hgrows : GrowsBy (PortHandle m) _ t := seedPorts_grows hseed
  have hname : s.table.stepName = options.stepName :=
    henc.extends.stepName.trans hgrows.stepName
  exact ⟨key, v, x, hget, rfl, hname ▸ (henc.canonical (seeded hseed).1).name hget⟩

/-- Variables of different names have different symbols, as far as names are apart. -/
theorem Step.eq_of_unbar {d : Option Rat} (h : m.Step options e d C s)
    (hapart : NamesApart options s) {n n' : String} (hn : n ∈ s.script.vars.keys)
    (hn' : n' ∈ s.script.vars.keys) (heq : Symbol.unbar n = Symbol.unbar n') : n = n' := by
  obtain ⟨key, v, x, hget, hx, rfl⟩ := h.handle_of_mem_keys hn
  obtain ⟨key', v', x', hget', hx', rfl⟩ := h.handle_of_mem_keys hn'
  by_cases hkey : key = .step
  · subst hkey
    exact (hapart.step_apart hn hn' heq.symm).symm
  by_cases hkey' : key' = .step
  · subst hkey'
    exact hapart.step_apart hn' hn heq
  cases key with
  | step => exact absurd rfl hkey
  | port q =>
    obtain ⟨rfl, rfl⟩ := eq_of_unbar_symbolText hkey' heq
    rfl
  | «local» name owner =>
    cases key' with
    | step => exact absurd rfl hkey'
    | port q => cases (eq_of_unbar_symbolText hkey heq.symm).1
    | «local» name' owner' =>
      exact hapart.locals hn hn' ⟨_, _, _, _, hget, hx⟩ ⟨_, _, _, _, hget', hx'⟩ heq

/-- **Which conflicts there are.** The declarations of the script of a step introduce no symbol
twice, and none that means something else, if and only if the names of enumerations, of tags and of
the time step, which are taken as they are, do not cause a conflict and the names of locals do not
only differ in bars. -/
theorem conflictFree_iff (hm : m.Built) {d : Option Rat} {cache : BodyCache}
    (h : m.step options e d cache = .ok s C) : s.script.ConflictFree ↔ NamesApart options s := by
  have hstep := step_ok hm.wellFormed h
  have hsymbol : ∀ {n}, n ∈ s.script.vars.keys → Symbol.unbar n ∈ s.script.variableSymbols :=
    fun hn => List.mem_map_of_mem hn
  constructor
  · rintro ⟨hnodup, hfree⟩
    rw [Script.introduced_eq] at hnodup hfree
    obtain ⟨henums, hvars, hdisjoint⟩ := List.nodup_append.1 hnodup
    have hinj := List.inj_on_of_nodup_map hvars
    exact ⟨henums, fun hx => ⟨hfree _ (List.mem_append_left _ hx), fun hx' =>
        hdisjoint _ hx _ hx' rfl⟩, fun hn => hfree _ (List.mem_append_right _ (hsymbol hn)),
      fun hn hn' heq => hinj hn' hn heq, fun hn hn' _ _ heq => hinj hn hn' heq⟩
  · intro hapart
    refine ⟨?_, ?_⟩ <;> rw [Script.introduced_eq]
    · refine List.nodup_append.2 ⟨hapart.enums, ?_, fun x hx y hy hxy => ?_⟩
      · exact s.script.vars.nodup.map_on fun n hn n' hn' heq => hstep.eq_of_unbar hapart hn hn' heq
      · exact (hapart.enums_free hx).2 (hxy ▸ hy)
    · intro x hx
      rcases List.mem_append.1 hx with hx | hx
      · exact (hapart.enums_free hx).1
      · obtain ⟨n, hn, rfl⟩ := List.mem_map.1 hx
        obtain ⟨key, v, -, -, -, rfl⟩ := hstep.handle_of_mem_keys hn
        by_cases hkey : key = .step
        · subst hkey
          exact hapart.step_free hn
        · exact isFree_symbolText hkey

/-! ### Instances -/

/-- An entity with a port of each of two enumerations and an update that writes each. -/
def twoSwitches (first second : List String) (on idle : String) : ModelDefinition where
  resources := [⟨"switch", none, .enumeration first⟩, ⟨"mode", none, .enumeration second⟩]
  entity := .mk "e" [⟨"p", .internal, "switch", .string on⟩, ⟨"q", .internal, "mode", .string idle⟩]
    ["s"] none [⟨"u", "s", "p", "|s, dt| \"" ++ on ++ "\""⟩,
      ⟨"v", "s", "q", "|s, dt| \"" ++ idle ++ "\""⟩] [] []

/-- Enumerations without a common tag cause no conflict. -/
theorem different_tags_apart : ∃ m e s cache,
    (twoSwitches ["on", "off"] ["busy", "idle"] "on" "idle").build = .ok (m, e) ∧
    m.step {} e none {} = .ok s cache ∧ s.script.ConflictFree ∧ NamesApart {} s := by
  have h : Attempt.succeeds (fun (m, e) => Stateful.succeeds (fun s _ => s.script.ConflictFree)
      (m.encodeStepDown {} 1 e none ⟨.fresh "dt", {}⟩))
      (twoSwitches ["on", "off"] ["busy", "idle"] "on" "idle").build := by decide +kernel
  obtain ⟨⟨m, e⟩, hbuild, h⟩ := Attempt.exists_of_succeeds h
  obtain ⟨s, p, hdown, h⟩ := Stateful.exists_of_succeeds h
  have hstep := step_ok_of_down hdown
  have hfree := of_decide_eq_true h
  exact ⟨m, e, s, p.cache, hbuild, hstep, hfree,
    (conflictFree_iff (ModelDefinition.build_built hbuild).1 hstep).1 hfree⟩

/-- Two enumerations with a common tag declare one constructor twice, in a script that can be
assembled. -/
theorem shared_tag_conflict : ∃ m e s cache text,
    (twoSwitches ["on", "off"] ["on", "idle"] "on" "idle").build = .ok (m, e) ∧
    m.step {} e none {} = .ok s cache ∧ s.script.assemble = .ok text ∧
    ¬ s.script.ConflictFree := by
  have h : Attempt.succeeds (fun (m, e) => Stateful.succeeds (fun s _ =>
      s.script.carried = [] ∧ ¬ s.script.ConflictFree)
      (m.encodeStepDown {} 1 e none ⟨.fresh "dt", {}⟩))
      (twoSwitches ["on", "off"] ["on", "idle"] "on" "idle").build := by decide +kernel
  obtain ⟨⟨m, e⟩, hbuild, h⟩ := Attempt.exists_of_succeeds h
  obtain ⟨s, p, hdown, h⟩ := Stateful.exists_of_succeeds h
  obtain ⟨hcarried, hconflict⟩ := of_decide_eq_true h
  exact ⟨m, e, s, p.cache, _, hbuild, step_ok_of_down hdown,
    by rw [Script.assemble, hcarried]; rfl, hconflict⟩

end Model

end HybridStep
