import HybridStep.Model.Session
import HybridStep.Proofs.Model.Additions
import HybridStep.Proofs.Success

/-! # Calls are additions

A call checks and writes step by step, and what it has written would stay if it failed after that.
But it writes only after its last check, so it is the addition that is made as a whole, or not at
all. -/

namespace HybridStep

theorem Model.modifyEntity_modifyEntity (m : Model) (e : EntityId) (f g : Entity → Entity) :
    (m.modifyEntity e f).modifyEntity e g = m.modifyEntity e (g ∘ f) := by
  simp [modifyEntity, List.modify_modify_eq]

theorem modify_snoc {α : Type} (f : α → α) (l : List α) (x : α) :
    (l ++ [x]).modify l.length f = l ++ [f x] := by
  induction l with
  | nil => rfl
  | cons a l ih => exact congrArg _ ih

namespace Building

variable {α β : Type} {f : Model → Except ModelError (Model × α)} {g : α → β} {m m' : Model}
variable {e : EntityId} {name : String} {err : ModelError}

/-! ### Additions as a whole -/

/-- An addition that is made as a whole: a failure leaves the model as it was. -/
def add (f : Model → Except ModelError (Model × α)) : Building α := fun m =>
  match f m with
  | .ok (m, a) => .ok a m
  | .error e => .error e m

theorem add_ok {a : α} : add f m = .ok a m' ↔ f m = .ok (m', a) := by
  unfold add
  cases f m with
  | ok r => simp [and_comm, Prod.ext_iff]
  | error e => simp

theorem add_error (h : add f m = .error err m') : m' = m := by
  unfold add at h
  cases hf : f m with
  | ok r => simp [hf] at h
  | error why =>
    rw [hf] at h
    exact (EStateM.Result.error.inj h).2.symm

theorem map_add_ok {b : β} (h : (do return g (← add f)) m = .ok b m') :
    ∃ a, f m = .ok (m', a) ∧ g a = b := by
  obtain ⟨a, m₁, hadd, h⟩ := Stateful.bind_ok.1 h
  obtain ⟨hb, rfl⟩ := Stateful.pure_ok.1 h
  exact ⟨a, add_ok.1 hadd, hb⟩

theorem map_add_error (h : (do return g (← add f)) m = .error err m') : m' = m := by
  simp only [bind, EStateM.bind] at h
  split at h
  · cases h
  · next hm =>
    cases h
    exact add_error hm

/-! ### Each call -/

theorem get_bind (k : Model → Building α) : (get >>= k) m = k m m := rfl

/-- A check writes nothing. -/
theorem reject_bind (wrong : Model → Bool) (why : Model → ModelError) (x : Building α) :
    (reject wrong why >>= fun _ => x) m = if wrong m then .error (why m) m else x m := by
  rw [reject, bind_assoc, get_bind]
  cases wrong m <;> rfl

theorem resource_eq (name : String) (domain : Domain) :
    resource name domain = add (·.addResource name none domain) := by
  funext m
  rw [resource, reject_bind, add, Model.addResource]
  by_cases h : domain = .enumeration []
  · simp [h]
  · simp only [h, decide_false, if_false, Bool.false_eq_true]
    change EStateM.Result.ok (⟨(m.resources ++ [_]).length - 1⟩ : ResourceId) _ = _
    rw [List.length_append]
    rfl

theorem resourceWithUnit_eq (name unit : String) (domain : Domain) :
    resourceWithUnit name unit domain = add (·.addResource name (some unit) domain) := by
  funext m
  rw [resourceWithUnit, resource_eq, add, Model.addResource]
  simp only [bind, EStateM.bind, add, Model.addResource]
  split_ifs
  · rfl
  · change EStateM.Result.ok _ { m with resources := (m.resources ++ [_]).modify _ _ } = _
    rw [modify_snoc]

theorem entity_eq (name : String) (parent : Option EntityId) :
    entity name parent = add (·.addEntity name parent) := by
  funext m
  cases parent with
  | none => rfl
  | some p =>
    change (reject _ _ >>= fun _ => _) m = _
    rw [reject_bind, add, Model.addEntity]
    split_ifs <;> rfl

theorem port_eq (kind : PortKind) (r : ResourceId) (value : Value) :
    port e name kind r value = add (·.addPort e name kind r value) := by
  funext m
  rw [port, reject_bind, add, Model.addPort]
  split_ifs with hname
  · rfl
  · rw [get_bind]
    cases (m.resource r).domain.admit? value <;> rfl

theorem state_eq : state e name = add (·.addState e name) := by
  funext m
  rw [state, reject_bind, add, Model.addState]
  split_ifs with hname
  · rfl
  · change EStateM.Result.ok _ (Model.modifyEntity (Model.modifyEntity _ _ _) _ _) = _
    rw [Model.modifyEntity_modifyEntity]
    refine congrArg (fun f => EStateM.Result.ok _ (Model.modifyEntity _ e f)) (funext fun r => ?_)
    cases hc : r.current <;> simp [hc]

theorem setCurrent_eq (s : StateId) :
    setCurrent e s = add fun m => (m.setCurrentState e s).map fun m => (m, ()) := by
  funext m
  rw [setCurrent, reject_bind, add, Model.setCurrentState]
  simp only [decide_eq_true_eq]
  split_ifs <;> rfl

theorem update_eq (s : StateId) (target : PortId) (function : String) :
    update e name s target function = add (·.addUpdate e name s target function) := by
  funext m
  rw [update, reject_bind, reject_bind, reject_bind, add, Model.addUpdate]
  simp only [decide_eq_true_eq]
  split_ifs <;> rfl

theorem influence_eq (source target : PortId) :
    influence e name source target = add (·.addInfluence e name source target) := by
  funext m
  rw [influence, reject_bind, reject_bind, reject_bind, add, Model.addInfluence]
  split_ifs <;> rfl

end Building

namespace BuilderCall

open Building (add)

/-- A call as an addition that is made as a whole. -/
def addition : BuilderCall → Building (Option ComponentId)
  | resource name unit domain => return some (.resource (← add (·.addResource name unit domain)))
  | entity name parent => return some (.entity (← add (·.addEntity name parent)))
  | port e name kind r value => return some (.port (← add (·.addPort e name kind r value)))
  | state e name => return some (.state (← add (·.addState e name)))
  | setCurrent e s => do
    add fun m => (m.setCurrentState e s).map fun m => (m, ())
    return none
  | update e name s target function =>
    return some (.update (← add (·.addUpdate e name s target function)))
  | influence e name source target =>
    return some (.influence (← add (·.addInfluence e name source target)))

/-- **A call is the addition as a whole.** -/
theorem perform_eq_addition (c : BuilderCall) : c.perform = c.addition := by
  cases c with
  | resource name unit domain =>
    cases unit
    · rw [perform, Building.resource_eq, addition]
    · rw [perform, Building.resourceWithUnit_eq, addition]
  | entity name parent => rw [perform, Building.entity_eq, addition]
  | port e name kind r value => rw [perform, Building.port_eq, addition]
  | state e name => rw [perform, Building.state_eq, addition]
  | setCurrent e s => rw [perform, Building.setCurrent_eq, addition]
  | update e name s target function => rw [perform, Building.update_eq, addition]
  | influence e name source target => rw [perform, Building.influence_eq, addition]

/-- **A failing call leaves the model as it was.** -/
theorem perform_error {c : BuilderCall} {m m' : Model} {e : ModelError}
    (h : c.perform m = .error e m') : m' = m := by
  rw [perform_eq_addition] at h
  cases c <;> exact Building.map_add_error h

end BuilderCall

end HybridStep
