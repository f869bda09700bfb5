import HybridStep.Proofs.Ordered.Bindings
import HybridStep.Proofs.Step.Locality

/-! # Texts that a step asks for

An order or a step asks for the bodies of some texts. Which texts it asks for and what it gives does
not depend on the cache, as long as the cache gives every text its own body; and reading keeps that
if no two texts that are read have one digest. -/

namespace HybridStep

namespace BodyCache

variable {Used : String → Prop} {c : BodyCache} {text text' : String} {texts : List String}

/-! ### Texts with digests of their own -/

/-- Some texts have different digests. -/
def TextsApart (Used : String → Prop) : Prop :=
  ∀ text text', Used text → Used text' → key text = key text' → text = text'

theorem TextsApart.mono {Less : String → Prop} (h : TextsApart Used)
    (hless : ∀ text, Less text → Used text) : TextsApart Less :=
  fun text text' ht ht' => h text text' (hless text ht) (hless text' ht')

/-- A cache gives some texts their own bodies. -/
def Faithful (Used : String → Prop) (c : BodyCache) : Prop :=
  ∀ text, Used text → c.answer text = UpdateFunction.read text

theorem faithful_empty (hits misses : Nat) : Faithful Used ⟨.empty, hits, misses⟩ := by
  intro text _
  rw [answer_eq]
  rfl

theorem Faithful.read (h : c.Faithful Used) (hU : TextsApart Used) (ht : Used text) :
    (c.read text).2.Faithful Used := fun text' ht' => by
  rw [answer_read c fun hkey => by rw [hU text text' ht ht' hkey]]
  exact h text' ht'

/-- Reads texts one after the other. -/
def readAll (c : BodyCache) (texts : List String) : BodyCache :=
  texts.foldl (fun c text => (c.read text).2) c

theorem readAll_append (c : BodyCache) (texts rest : List String) :
    c.readAll (texts ++ rest) = (c.readAll texts).readAll rest := List.foldl_append

theorem Faithful.readAll (hU : TextsApart Used) : ∀ {texts : List String} {c : BodyCache},
    c.Faithful Used → (∀ text ∈ texts, Used text) → (c.readAll texts).Faithful Used
  | [], _, h, _ => h
  | _ :: _, _, h, ht => by
    rw [List.forall_mem_cons] at ht
    exact (h.read hU ht.1).readAll hU ht.2

end BodyCache

open BodyCache (Faithful TextsApart)

/-! ### Computations that ask for texts -/

section

variable {Used : String → Prop} {ε σ α β : Type} {x : EStateM ε σ α} {f : α → EStateM ε σ β}
variable {start mid stop : BodyCache → σ} {texts rest : List String} {r : Except ε α}

/-- What a computation gives, and the cache that it leaves, for every cache that is faithful: the
one that is left if some texts are read. -/
def Asks (Used : String → Prop) (x : EStateM ε σ α) (start stop : BodyCache → σ)
    (texts : List String) (r : Except ε α) : Prop :=
  ∀ c : BodyCache, c.Faithful Used → x (start c) = Stateful.leaving r (stop (c.readAll texts))

theorem Asks.pure (a : α) : Asks Used (pure a : EStateM ε σ α) start start [] (.ok a) :=
  fun _ _ => rfl

theorem Asks.bind {a : α} {r : Except ε β} (hU : TextsApart Used) (ht : ∀ text ∈ texts, Used text)
    (hx : Asks Used x start mid texts (.ok a)) (hf : Asks Used (f a) mid stop rest r) :
    Asks Used (x >>= f) start stop (texts ++ rest) r := fun c hc => by
  rw [BodyCache.readAll_append, ← hf _ (hc.readAll hU ht)]
  simp only [Bind.bind, EStateM.bind, hx c hc, Stateful.leaving]

theorem Asks.fail {e : ε} (hx : Asks Used x start stop texts (.error e)) :
    Asks Used (x >>= f) start stop texts (.error e) := fun c hc => by
  simp only [Bind.bind, EStateM.bind, hx c hc, Stateful.leaving]

end

section

variable {Used : String → Prop} {ε α : Type} {x : EStateM ε BodyCache α} {texts : List String}
variable {r : Except ε α} {c : BodyCache}

theorem Asks.outcome_eq (hx : Asks Used x id id texts r) (hc : c.Faithful Used) :
    Stateful.outcome (x c) = r := by
  rw [show x c = _ from hx c hc, Stateful.outcome_leaving]

theorem Asks.final_eq (hx : Asks Used x id id texts r) (hc : c.Faithful Used) :
    Stateful.final (x c) = c.readAll texts := by
  rw [show x c = _ from hx c hc, Stateful.final_leaving, id]

/-- What is given is what is given with an empty cache. -/
theorem Asks.outcome_eq_empty (hx : Asks Used x id id texts r) (hc : c.Faithful Used) :
    Stateful.outcome (x c) = Stateful.outcome (x {}) := by
  rw [hx.outcome_eq hc, hx.outcome_eq (BodyCache.faithful_empty 0 0)]

end

/-! ### Orders -/

/-- The texts up to the first one that cannot be read. -/
def askedTexts : List String → List String
  | [] => []
  | text :: rest => text ::
    match UpdateFunction.read text with
    | .ok _ => askedTexts rest
    | .error _ => []

theorem askedTexts_sublist : (texts : List String) → (askedTexts texts).Sublist texts
  | [] => .slnil
  | text :: rest => by
    refine List.Sublist.cons_cons text ?_
    cases UpdateFunction.read text with
    | ok f => exact askedTexts_sublist rest
    | error e => exact List.nil_sublist rest

namespace Model

variable (m : Model) (options : Options)

/-- The texts of the active updates of an entity. -/
def activeTexts (e : EntityId) : List String :=
  (m.activeUpdates e).map fun u => (m.update u).function

/-- The texts that an order asks for. -/
def orderTexts (e : EntityId) : List String := askedTexts (m.activeTexts e)

variable {m options} {Used : String → Prop} {e : EntityId} {u : UpdateId} {text : String}

theorem asks_readPorts (hu : Used (m.update u).function) : Asks Used (m.readPorts u) id id
    [(m.update u).function]
    (match UpdateFunction.read (m.update u).function with
    | .ok f => .ok (accessedPorts m (m.update u).entity f).toList
    | .error err => .error (.updateBody (m.modifierName (.update u)) err)) := fun c hc => by
  have hbody := hc _ hu
  rw [BodyCache.answer] at hbody
  simp only [readPorts, id, BodyCache.readAll, List.foldl_cons, List.foldl_nil, ← hbody]
  rcases c.read (m.update u).function with ⟨_ | _, _⟩ <;> rfl

theorem asks_addUpdates (hU : TextsApart Used) : ∀ (us : List UpdateId) (g : DependencyGraph),
    (∀ text ∈ askedTexts (us.map fun u => (m.update u).function), Used text) →
      ∃ r, Asks Used (m.addUpdates g us) id id
        (askedTexts (us.map fun u => (m.update u).function)) r
  | [], g, _ => ⟨_, .pure g⟩
  | u :: us, g, ht => by
    rw [List.map_cons, askedTexts, List.forall_mem_cons] at ht
    have hu := asks_readPorts ht.1
    rw [List.map_cons, askedTexts, addUpdates]
    cases hread : UpdateFunction.read (m.update u).function with
    | error err =>
      rw [hread] at hu
      exact ⟨_, hu.fail⟩
    | ok f =>
      rw [hread] at hu ht
      obtain ⟨r, hrest⟩ := asks_addUpdates hU us (m.addUpdateEdges g u _) ht.2
      exact ⟨r, hu.bind hU (List.forall_mem_singleton.2 ht.1) hrest⟩

/-- An order asks for the texts of the active updates, up to the first that cannot be read. -/
theorem asks_order (hU : TextsApart Used) (ht : ∀ text ∈ m.orderTexts e, Used text) :
    ∃ r, Asks Used (m.order e) id id (m.orderTexts e) r := by
  obtain ⟨r, hupdates⟩ := asks_addUpdates hU (m.activeUpdates e)
    ((m.entity e).influences.foldl m.addInfluenceEdges .empty) ht
  have hgraph : ∃ r, Asks Used (m.dependencyGraph e) id id (m.orderTexts e) r := by
    cases r with
    | error err => exact ⟨_, hupdates.fail⟩
    | ok g =>
      have hbuilt : Asks Used (m.dependencyGraph e) id id (m.orderTexts e ++ []) _ :=
        hupdates.bind hU ht (.pure _)
      exact ⟨_, List.append_nil (m.orderTexts e) ▸ hbuilt⟩
  obtain ⟨r, hgraph⟩ := hgraph
  cases r with
  | error err => exact ⟨_, hgraph.fail⟩
  | ok g =>
    refine ⟨m.orderOfGraph e g, fun c hc => ?_⟩
    rw [order_of_graph (hgraph c hc)]
    cases m.orderOfGraph e g <;> rfl

end Model

/-! ### Steps -/

/-- What a part of a step asks for, and the table that it leaves if it succeeds. -/
structure Asked where
  texts : List String
  table : Option SymbolTable

namespace Asked

/-- The table that an encoding leaves, which asks for nothing. -/
def ofResult {ε α : Type} : EStateM.Result ε SymbolTable α → Asked
  | .ok _ t => ⟨[], some t⟩
  | .error _ _ => ⟨[], none⟩

/-- What is asked for by a part and, if it succeeds, by the rest. -/
def next (a : Asked) (rest : SymbolTable → Asked) : Asked :=
  match a.table with
  | some t => ⟨a.texts ++ (rest t).texts, (rest t).table⟩
  | none => a

theorem mem_next {a : Asked} {text : String} (rest : SymbolTable → Asked) (h : text ∈ a.texts) :
    text ∈ (a.next rest).texts := by
  unfold next
  cases a.table with
  | none => exact h
  | some t => exact List.mem_append_left _ h

@[simp] theorem texts_ofResult {ε α : Type} (r : EStateM.Result ε SymbolTable α) :
    (ofResult r).texts = [] := by
  cases r <;> rfl

theorem next_subset {a : Asked} {rest : SymbolTable → Asked} {all : List String}
    (ha : a.texts ⊆ all) (hrest : ∀ t, (rest t).texts ⊆ all) : (a.next rest).texts ⊆ all := by
  unfold next
  cases a.table with
  | none => exact ha
  | some t => exact List.append_subset.2 ⟨ha, hrest t⟩

end Asked

section

variable {Used : String → Prop} {α β : Type} {t t' : SymbolTable}

theorem asks_readBody {text : String} (ht : Used text) (t : SymbolTable) :
    Asks Used (Stepping.readBody text) (StepProgress.mk t) (StepProgress.mk t) [text]
      ((UpdateFunction.read text).mapError .body) := fun c hc => by
  have hbody := hc _ ht
  rw [BodyCache.answer] at hbody
  simp only [Stepping.readBody, BodyCache.readAll, List.foldl_cons, List.foldl_nil, ← hbody]
  rcases c.read text with ⟨_ | _, _⟩ <;> rfl

theorem asks_onCache {x : Scheduling α} {texts : List String} {r : Except ScheduleError α}
    (h : Asks Used x id id texts r) (t : SymbolTable) : Asks Used (Stepping.onCache x)
      (StepProgress.mk t) (StepProgress.mk t) texts (r.mapError .schedule) := fun c hc => by
  have hx := h c hc
  simp only [id] at hx
  simp only [Stepping.onCache, hx]
  cases r <;> rfl

/-- A part of a step asks for some texts, whatever else a faithful cache has, and leaves a table if
it succeeds. -/
def Follows (Used : String → Prop) (x : Stepping α) (t : SymbolTable) (a : Asked) : Prop :=
  match a.table with
  | some t' => ∃ b, Asks Used x (StepProgress.mk t) (StepProgress.mk t') a.texts (.ok b)
  | none => ∃ t' err, Asks Used x (StepProgress.mk t) (StepProgress.mk t') a.texts (.error err)

theorem Follows.pure (b : α) : Follows Used (pure b) t ⟨[], some t⟩ := ⟨b, .pure b⟩

theorem follows_onTable (x : Tabled α) (t : SymbolTable) :
    Follows Used (Stepping.onTable x) t (.ofResult (x t)) := by
  cases hx : x t with
  | ok b t' => exact ⟨b, fun c _ => by rw [Stepping.onTable, hx]; rfl⟩
  | error err t' => exact ⟨t', .encoding err, fun c _ => by rw [Stepping.onTable, hx]; rfl⟩

theorem Asks.follows {x : Stepping α} {f : α → Stepping β} {b : α} {texts : List String} {a : Asked}
    (hU : TextsApart Used) (ht : ∀ text ∈ texts, Used text)
    (hx : Asks Used x (StepProgress.mk t) (StepProgress.mk t') texts (.ok b))
    (hf : Follows Used (f b) t' a) : Follows Used (x >>= f) t ⟨texts ++ a.texts, a.table⟩ := by
  obtain ⟨rest, table⟩ := a
  cases table with
  | none =>
    obtain ⟨t'', err, hf⟩ := hf
    exact ⟨t'', err, hx.bind hU ht hf⟩
  | some t'' =>
    obtain ⟨b', hf⟩ := hf
    exact ⟨b', hx.bind hU ht hf⟩

theorem Follows.bind {x : Stepping α} {f : α → Stepping β} {a : Asked} {rest : SymbolTable → Asked}
    (hU : TextsApart Used) (ht : ∀ text ∈ (a.next rest).texts, Used text) (hx : Follows Used x t a)
    (hf : ∀ b t', (∀ text ∈ (rest t').texts, Used text) → Follows Used (f b) t' (rest t')) :
    Follows Used (x >>= f) t (a.next rest) := by
  obtain ⟨texts, table⟩ := a
  cases table with
  | none =>
    obtain ⟨t', err, hx⟩ := hx
    exact ⟨t', err, hx.fail⟩
  | some t' =>
    obtain ⟨b, hx⟩ := hx
    simp only [Asked.next, List.forall_mem_append] at ht ⊢
    exact hx.follows hU ht.1 (hf b t' ht.2)

theorem Follows.map {x : Stepping α} {a : Asked} (hx : Follows Used x t a) (f : α → β) :
    Follows Used (x >>= fun b => Pure.pure (f b)) t a := by
  obtain ⟨texts, table⟩ := a
  cases table with
  | none =>
    obtain ⟨t', err, hx⟩ := hx
    exact ⟨t', err, hx.fail⟩
  | some t' =>
    obtain ⟨b, hx⟩ := hx
    refine ⟨f b, fun c hc => ?_⟩
    simp only [Bind.bind, EStateM.bind, hx c hc, Stateful.leaving]
    rfl

end

namespace Model

variable (m : Model) (options : Options)

/-- What an update asks for: its text, and nothing else if that cannot be read. -/
def updateAsked (u : UpdateId) (t : SymbolTable) : Asked :=
  match UpdateFunction.read (m.update u).function with
  | .ok f =>
    Asked.next ⟨[(m.update u).function], some t⟩ fun t =>
      .ofResult (HybridStep.encodeUpdate m options u f t)
  | .error _ => ⟨[(m.update u).function], none⟩

mutual

/-- What an entity asks for: the texts of its order, and then those of its modifiers. -/
def entityAsked (e : EntityId) (t : SymbolTable) : Asked :=
  match m.order e {} with
  | .ok ms _ => Asked.next ⟨m.orderTexts e, some t⟩ fun t => modifiersAsked e ms t
  | .error _ _ => ⟨m.orderTexts e, none⟩
termination_by (m.entities.length - e.index, 1, 0)

/-- What modifiers of an entity ask for, one after the other. -/
def modifiersAsked (e : EntityId) : List Modifier → SymbolTable → Asked
  | [], t => ⟨[], some t⟩
  | .update u :: rest, t => (m.updateAsked options u t).next fun t => modifiersAsked e rest t
  | .influence i :: rest, t =>
    (Asked.ofResult (HybridStep.encodeInfluence m i t)).next fun t => modifiersAsked e rest t
  | .subentity s :: rest, t =>
    (if e.index < s.index ∧ s.index < m.entities.length then entityAsked s t
      else ⟨[], some t⟩).next fun t => modifiersAsked e rest t
termination_by l _ => (m.entities.length - e.index, 0, l.length)

end

/-- The texts that a step asks for. -/
def stepTexts (e : EntityId) : List String :=
  ((Asked.ofResult (Tabled.seed m e (.fresh options.stepName))).next fun t =>
    m.entityAsked options e t).texts

/-- The texts of all updates of a model, and that of none. -/
def allTexts : List String := (default : Update).function :: m.updates.map (·.function)

variable {m options} {Used : String → Prop} {e : EntityId} {u : UpdateId} {t t' : SymbolTable}

theorem mem_allTexts (m : Model) (u : UpdateId) : (m.update u).function ∈ m.allTexts := by
  unfold update
  cases hu : m.updates[u.index]? with
  | none => exact List.mem_cons_self
  | some record =>
    exact List.mem_cons_of_mem _ (List.mem_map_of_mem (List.mem_of_getElem? hu))

theorem orderTexts_subset (e : EntityId) : m.orderTexts e ⊆ m.allTexts := fun text htext => by
  obtain ⟨u, -, rfl⟩ := List.mem_map.1 ((askedTexts_sublist _).subset htext)
  exact m.mem_allTexts u

theorem updateAsked_subset (u : UpdateId) (t : SymbolTable) :
    (m.updateAsked options u t).texts ⊆ m.allTexts := by
  have hsingle : [(m.update u).function] ⊆ m.allTexts :=
    List.cons_subset.2 ⟨m.mem_allTexts u, List.nil_subset _⟩
  unfold updateAsked
  cases UpdateFunction.read (m.update u).function with
  | error err => exact hsingle
  | ok f =>
    refine Asked.next_subset hsingle fun t => ?_
    rw [Asked.texts_ofResult]
    exact List.nil_subset _

mutual

theorem entityAsked_subset (e : EntityId) (t : SymbolTable) :
    (m.entityAsked options e t).texts ⊆ m.allTexts := by
  rw [entityAsked]
  cases m.order e {} with
  | error err c => exact orderTexts_subset e
  | ok ms c => exact Asked.next_subset (orderTexts_subset e) fun t => modifiersAsked_subset e ms t
termination_by (m.entities.length - e.index, 1, 0)

theorem modifiersAsked_subset (e : EntityId) : (ms : List Modifier) → (t : SymbolTable) →
    (m.modifiersAsked options e ms t).texts ⊆ m.allTexts
  | [], t => by
    rw [modifiersAsked]
    exact List.nil_subset _
  | .update u :: rest, t => by
    rw [modifiersAsked]
    exact Asked.next_subset (updateAsked_subset u t) fun t => modifiersAsked_subset e rest t
  | .influence i :: rest, t => by
    rw [modifiersAsked]
    refine Asked.next_subset ?_ fun t => modifiersAsked_subset e rest t
    rw [Asked.texts_ofResult]
    exact List.nil_subset _
  | .subentity s :: rest, t => by
    rw [modifiersAsked]
    refine Asked.next_subset ?_ fun t => modifiersAsked_subset e rest t
    split
    · exact entityAsked_subset s t
    · exact List.nil_subset _
termination_by ms => (m.entities.length - e.index, 0, ms.length)

end

/-- A step asks for texts of updates only. -/
theorem stepTexts_subset (e : EntityId) : m.stepTexts options e ⊆ m.allTexts := by
  refine Asked.next_subset ?_ fun t => entityAsked_subset e t
  rw [Asked.texts_ofResult]
  exact List.nil_subset _

theorem follows_update (hU : TextsApart Used)
    (ht : ∀ text ∈ (m.updateAsked options u t).texts, Used text) :
    Follows Used (m.encodeUpdate options u) t (m.updateAsked options u t) := by
  unfold updateAsked at ht ⊢
  unfold encodeUpdate
  cases hf : UpdateFunction.read (m.update u).function with
  | error err =>
    rw [hf] at ht
    have hread := asks_readBody (ht _ (List.mem_singleton_self _)) t
    rw [hf] at hread
    exact ⟨t, _, hread.fail⟩
  | ok f =>
    rw [hf] at ht
    have hu := ht _ (List.mem_append_left _ (List.mem_singleton_self _))
    have hread := asks_readBody hu t
    rw [hf] at hread
    exact hread.follows hU (List.forall_mem_singleton.2 hu)
      ((follows_onTable (HybridStep.encodeUpdate m options u f) t).map _)

theorem follows_influence (i : InfluenceId) (t : SymbolTable) :
    Follows Used (m.encodeInfluence i) t (.ofResult (HybridStep.encodeInfluence m i t)) :=
  (follows_onTable (HybridStep.encodeInfluence m i) t).map _

mutual

/-- **What an entity asks for and gives does not depend on the cache.** -/
theorem follows_entity (hU : TextsApart Used) (e : EntityId) (t : SymbolTable)
    (ht : ∀ text ∈ (m.entityAsked options e t).texts, Used text) :
    Follows Used (m.encodeEntity options e) t (m.entityAsked options e t) := by
  rw [entityAsked] at ht ⊢
  rw [encodeEntity]
  have hsub : ∀ text ∈ m.orderTexts e, Used text := by
    intro text htext
    cases hr : m.order e {} with
    | error err c' => exact ht text (by rw [hr]; exact htext)
    | ok ms c' => exact ht text (by rw [hr]; exact List.mem_append_left _ htext)
  obtain ⟨r, horder⟩ := asks_order hU hsub
  have hr := horder.outcome_eq (BodyCache.faithful_empty 0 0)
  have hcache := asks_onCache horder t
  cases hempty : m.order e {} with
  | error err c' =>
    obtain rfl : r = .error err := by rw [← hr, hempty]; rfl
    exact ⟨t, _, hcache.fail⟩
  | ok ms c' =>
    obtain rfl : r = .ok ms := by rw [← hr, hempty]; rfl
    rw [hempty] at ht
    exact hcache.follows hU hsub
      (follows_modifiers hU e ms t fun text htext => ht text (List.mem_append_right _ htext))
termination_by (m.entities.length - e.index, 1, 0)

/-- What modifiers ask for and give does not depend on the cache. -/
theorem follows_modifiers (hU : TextsApart Used) (e : EntityId) : (ms : List Modifier) →
    (t : SymbolTable) → (∀ text ∈ (m.modifiersAsked options e ms t).texts, Used text) →
      Follows Used (m.encodeModifiers options e ms) t (m.modifiersAsked options e ms t)
  | [], t, _ => by
    rw [encodeModifiers, modifiersAsked]
    exact .pure []
  | .update u :: rest, t, ht => by
    rw [modifiersAsked] at ht ⊢
    rw [encodeModifiers]
    have hfirst := follows_update hU fun text htext => ht text (Asked.mem_next _ htext)
    exact hfirst.bind hU ht fun b t' ht' => (follows_modifiers hU e rest t' ht').map _
  | .influence i :: rest, t, ht => by
    rw [modifiersAsked] at ht ⊢
    rw [encodeModifiers]
    exact (follows_influence i t).bind hU ht fun b t' ht' =>
      (follows_modifiers hU e rest t' ht').map _
  | .subentity s :: rest, t, ht => by
    rw [modifiersAsked] at ht ⊢
    rw [encodeModifiers]
    by_cases hs : e.index < s.index ∧ s.index < m.entities.length
    · rw [if_pos hs] at ht
      rw [if_pos hs, if_pos hs]
      have hinner := follows_entity hU s t fun text htext => ht text (Asked.mem_next _ htext)
      exact hinner.bind hU ht fun b t' ht' => (follows_modifiers hU e rest t' ht').map _
    · rw [if_neg hs] at ht
      rw [if_neg hs, if_neg hs]
      exact (Follows.pure []).bind hU ht fun b t' ht' =>
        (follows_modifiers hU e rest t' ht').map _
termination_by ms => (m.entities.length - e.index, 0, ms.length)

end

/-- What a step gives once its modifiers are encoded. -/
def stepResult (dt : Option Rat) (modifiers : List ModifierConstraints) (table : SymbolTable) :
    Except StepError StepConstraints :=
  match dt with
  | none => .ok ⟨modifiers, none, table⟩
  | some dt =>
    match stepEquation table dt with
    | .ok equation => .ok ⟨modifiers, some equation, table⟩
    | .error e => .error (.encoding e)

/-- The last part of a step, which changes nothing. -/
def closeStep (dt : Option Rat) (modifiers : List ModifierConstraints) : Stepping StepConstraints :=
  fun p => Stateful.leaving (stepResult dt modifiers p.table) p

theorem encodeStep_eq (dt : Option Rat) : m.encodeStep options e dt =
    (do Stepping.onTable (Tabled.seed m e)
        m.encodeEntity options e) >>= closeStep dt := by
  rw [encodeStep, bind_assoc]
  refine bind_congr fun _ => bind_congr fun modifiers => funext fun p => ?_
  cases dt with
  | none => rfl
  | some dt =>
    change (match stepEquation p.table dt with
      | .ok equation => (pure ⟨modifiers, some equation, p.table⟩ : Stepping StepConstraints)
      | .error e => throw (StepError.encoding e)) p = _
    simp only [closeStep, stepResult]
    cases stepEquation p.table dt <;> rfl

/-- A step asks for its texts, and what it gives does not depend on the cache. -/
theorem asks_step (hU : TextsApart Used) (dt : Option Rat)
    (ht : ∀ text ∈ m.stepTexts options e, Used text) :
    ∃ r, Asks Used (m.step options e dt) id id (m.stepTexts options e) r := by
  have hmodifiers : Follows Used
      (do Stepping.onTable (Tabled.seed m e)
          m.encodeEntity options e) (.fresh options.stepName) _ :=
    (follows_onTable (Tabled.seed m e) _).bind hU ht fun _ t ht => follows_entity hU e t ht
  have hstep : ∃ t r, Asks Used (m.encodeStep options e dt)
      (StepProgress.mk (.fresh options.stepName)) (StepProgress.mk t)
      (m.stepTexts options e) r := by
    rw [encodeStep_eq]
    unfold stepTexts at ht ⊢
    generalize (Asked.ofResult (Tabled.seed m e (.fresh options.stepName))).next _ = a at *
    obtain ⟨texts, table⟩ := a
    cases table with
    | none =>
      obtain ⟨t, err, hmodifiers⟩ := hmodifiers
      exact ⟨t, _, hmodifiers.fail⟩
    | some t =>
      obtain ⟨modifiers, hmodifiers⟩ := hmodifiers
      exact ⟨t, stepResult dt modifiers t,
        List.append_nil texts ▸ hmodifiers.bind hU ht fun c hc => rfl⟩
  obtain ⟨t, r, hstep⟩ := hstep
  refine ⟨r, fun c hc => ?_⟩
  simp only [id, step, hstep c hc]
  cases r <;> rfl

end Model

end HybridStep
