import HybridStep.Proofs.Encoding.Locality

/-! # The outline of a model

A model without the values of its ports, the current states, the texts of its updates and the units
of its resources. What names stand for, what components are called and what sorts ports have is all
in the outline, so two models with one outline differ for a body in the values of ports alone. -/

namespace HybridStep

deriving instance DecidableEq for Resource, Port, State, Update, Influence, Entity, Model

namespace Model

/-- The structure of a model with its names and domains. -/
def outline (m : Model) : Model :=
  { m with
    resources := m.resources.map fun r => { r with unit := none }
    ports := m.ports.map fun p => { p with value := default }
    entities := m.entities.map fun a => { a with current := none }
    updates := m.updates.map fun u => { u with function := default } }

variable (m : Model)

/-! ### Components -/

theorem resource_outline (r : ResourceId) :
    m.outline.resource r = { m.resource r with unit := none } := by
  simp only [resource, outline, List.getElem?_map]
  cases m.resources[r.index]? <;> rfl

theorem port_outline (p : PortId) : m.outline.port p = { m.port p with value := default } := by
  simp only [port, outline, List.getElem?_map]
  cases m.ports[p.index]? <;> rfl

theorem entity_outline (e : EntityId) :
    m.outline.entity e = { m.entity e with current := none } := by
  simp only [entity, outline, List.getElem?_map]
  cases m.entities[e.index]? <;> rfl

theorem update_outline (u : UpdateId) :
    m.outline.update u = { m.update u with function := default } := by
  simp only [update, outline, List.getElem?_map]
  cases m.updates[u.index]? <;> rfl

/-! ### Paths and names -/

theorem findPort_outline (e : EntityId) (name : String) :
    m.outline.findPort e name = m.findPort e name := by
  simp only [findPort, entity_outline, port_outline]

theorem findSubentity_outline (e : EntityId) (name : String) :
    m.outline.findSubentity e name = m.findSubentity e name := by
  simp only [findSubentity, entity_outline]

theorem resolvePort_outline : ∀ (names : List String) (e : EntityId),
    m.outline.resolvePort e names = m.resolvePort e names
  | [], _ => rfl
  | [name], e => m.findPort_outline e name
  | name :: name' :: names, e => by
    have ih : (fun a => m.outline.resolvePort a (name' :: names)) =
        fun a => m.resolvePort a (name' :: names) := funext fun a => resolvePort_outline _ a
    simp only [resolvePort, findSubentity_outline]
    rw [ih]

theorem resolvePortPath_outline (e : EntityId) (path : String) :
    m.outline.resolvePortPath e path = m.resolvePortPath e path := m.resolvePort_outline _ e

theorem chain_outline (e : EntityId) : m.outline.chain e = m.chain e := by
  induction e using chain.induct m with
  | case1 e hnone => rw [chain, chain, entity_outline, hnone]
  | case2 e p hparent hlt ih =>
    rw [chain, chain, entity_outline]
    simp only [hparent, if_pos hlt, ih]
  | case3 e p hparent hlt =>
    rw [chain, chain, entity_outline]
    simp only [hparent, if_neg hlt]

theorem portLabel_outline (e : EntityId) (p : PortId) :
    m.outline.portLabel e p = m.portLabel e p := by
  simp only [portLabel, pathToPort, chain_outline, port_outline, entity_outline]

theorem entityPath_outline (e : EntityId) : m.outline.entityPath e = m.entityPath e := by
  simp only [entityPath, entityNames, chain_outline, entity_outline]

theorem modifierName_outline (x : Modifier) : m.outline.modifierName x = m.modifierName x := by
  cases x with
  | update u => simp only [modifierName, entityPath_outline, update_outline]
  | influence i => exact congrArg (· ++ _) (congrArg (· ++ _) (m.entityPath_outline _))
  | subentity e => exact m.entityPath_outline e

theorem sortOfPort_outline (p : PortId) : m.outline.sortOfPort p = m.sortOfPort p := by
  simp only [sortOfPort, resource_outline, port_outline]

theorem portTerm_outline {p : PortId} {v : Version} (hv : v ≠ .prior) :
    SymbolTable.portTerm m.outline p v = SymbolTable.portTerm m p v := by
  simp only [SymbolTable.portTerm, if_neg hv, sortOfPort_outline, port_outline]

end Model

/-! ### Bodies -/

namespace Context

variable {c : Context} {m : Model}

/-- A context with another model. -/
def onModel (c : Context) (m : Model) : Context := { c with model := m }

theorem key?_outline (c : Context) : (c.onModel c.model.outline).key? = c.key? := by
  funext n
  cases n <;> simp only [key?, onModel, resolve?, Model.resolvePortPath_outline]

theorem leaf_outline (c : Context) : (c.onModel c.model.outline).leaf = c.leaf := by
  funext n
  simp only [leaf, key?_outline]
  simp only [onModel, Model.sortOfPort_outline]
  rfl

theorem forBody_outline (c : Context) (body : List Node) :
    (c.onModel c.model.outline).forBody body = (c.forBody body).onModel c.model.outline := by
  have hsort : c.model.outline.sortOfPort = c.model.sortOfPort :=
    funext c.model.sortOfPort_outline
  have hsorts : (c.onModel c.model.outline).sortsOfLocals body = c.sortsOfLocals body := by
    simp only [sortsOfLocals, leaf_outline]
    simp only [onModel, hsort]
  have hwritten : (c.onModel c.model.outline).portsWritten body = c.portsWritten body := by
    simp only [portsWritten, key?_outline]
    rfl
  simp only [forBody, hsorts, hwritten]
  rfl

/-- A context matches the one with the outline of its model. -/
theorem matches_outline (c : Context) : c.Matches (c.onModel c.model.outline) where
  key := c.key?_outline.symm
  keyName := by
    funext key
    cases key with
    | port p => exact (c.model.portLabel_outline c.entity p).symm
    | «local» name => rfl
  isStep := rfl
  sort := rfl
  modifier := rfl
  modifierName := (c.model.modifierName_outline c.modifier).symm
  target := rfl
  options := rfl
  writtenPorts := rfl
  term hv := (c.model.portTerm_outline hv).symm

end Context

theorem bodyContext_outline (m : Model) (options : Options) (u : UpdateId) (f : UpdateFunction) :
    bodyContext m.outline options u f = (bodyContext m options u f).onModel m.outline := by
  have hupdate : updateContext m.outline options u f =
      (updateContext m options u f).onModel m.outline := by
    simp only [updateContext, m.update_outline]
    rfl
  rw [bodyContext, hupdate]
  exact Context.forBody_outline (updateContext m options u f) f.body

/-- **Bodies see no more of a model than its outline and the values of ports.** -/
theorem bodyContext_matches {m m₁ : Model} (h : m.outline = m₁.outline) (options : Options)
    (u : UpdateId) (f : UpdateFunction) :
    (bodyContext m options u f).Matches (bodyContext m₁ options u f) := by
  have hm := (bodyContext m options u f).matches_outline
  have hm₁ := (bodyContext m₁ options u f).matches_outline
  have hsame : (bodyContext m options u f).onModel m.outline =
      (bodyContext m₁ options u f).onModel m₁.outline := by
    rw [← bodyContext_outline, ← bodyContext_outline, h]
  exact Context.Matches.trans (hsame ▸ hm) hm₁.symm

end HybridStep
