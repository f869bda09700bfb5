import HybridStep.Step

/-! # Successful computations

What it means that a computation with failures succeeds, one lemma for each way in which
computations are put together: its parts succeed, one on the state that the other one leaves. -/

namespace HybridStep

variable {ε σ α β : Type}

/-! ### Results -/

namespace Attempt

theorem bind_ok {x : Except ε α} {f : α → Except ε β} {b : β} :
    (x >>= f) = .ok b ↔ ∃ a, x = .ok a ∧ f a = .ok b := by
  cases x <;> simp [bind, Except.bind]

theorem bind_error {x : Except ε α} {f : α → Except ε β} {e : ε} :
    (x >>= f) = .error e ↔ x = .error e ∨ ∃ a, x = .ok a ∧ f a = .error e := by
  cases x <;> simp [bind, Except.bind]

theorem map_ok {x : Except ε α} {f : α → β} {b : β} :
    x.map f = .ok b ↔ ∃ a, x = .ok a ∧ f a = b := by
  cases x <;> simp [Except.map]

theorem map_error {x : Except ε α} {f : α → β} {e : ε} : x.map f = .error e ↔ x = .error e := by
  cases x <;> simp [Except.map]

/-- A last part that only gives a result does not fail. -/
theorem bind_pure_error {x : Except ε α} {f : α → β} {e : ε} :
    (x >>= fun a => pure (f a)) = .error e ↔ x = .error e := by
  cases x <;> simp [bind, Except.bind, pure, Except.pure]

/-- Whether there is a result that passes a test. -/
def succeeds (test : α → Bool) : Except ε α → Bool
  | .ok a => test a
  | .error _ => false

theorem exists_of_succeeds {x : Except ε α} {test : α → Bool} (h : succeeds test x) :
    ∃ a, x = .ok a ∧ test a := by
  cases x with
  | ok a => exact ⟨a, rfl, h⟩
  | error e => cases h

end Attempt

/-! ### Computations with a state -/

namespace Stateful

variable {s s' : σ}

theorem bind_ok {x : EStateM ε σ α} {f : α → EStateM ε σ β} {b : β} :
    (x >>= f) s = .ok b s' ↔ ∃ a t, x s = .ok a t ∧ f a t = .ok b s' := by
  simp only [bind, EStateM.bind]
  cases x s <;> grind

theorem map_ok {x : EStateM ε σ α} {f : α → β} {b : β} :
    (f <$> x) s = .ok b s' ↔ ∃ a, x s = .ok a s' ∧ f a = b := by
  simp only [Functor.map, EStateM.map]
  cases x s <;> grind

theorem pure_ok {a b : α} : (pure a : EStateM ε σ α) s = .ok b s' ↔ a = b ∧ s = s' := by
  simp [pure, EStateM.pure]

theorem throw_ok {e : ε} {b : α} : ¬ (throw e : EStateM ε σ α) s = .ok b s' := by
  intro h
  cases h

theorem get_ok {t : σ} : (get : EStateM ε σ σ) s = .ok t s' ↔ s = t ∧ s = s' := by
  change EStateM.Result.ok s s = EStateM.Result.ok t s' ↔ s = t ∧ s = s'
  rw [EStateM.Result.ok.injEq]

theorem modify_ok {f : σ → σ} {u : Unit} :
    (modify f : EStateM ε σ Unit) s = .ok u s' ↔ f s = s' := by
  change EStateM.Result.ok () (f s) = EStateM.Result.ok u s' ↔ f s = s'
  rw [EStateM.Result.ok.injEq, and_iff_right rfl]

/-- Whether there is a result that passes a test with the state that it leaves. -/
def succeeds (test : α → σ → Bool) : EStateM.Result ε σ α → Bool
  | .ok a s => test a s
  | .error _ _ => false

theorem exists_of_succeeds {x : EStateM.Result ε σ α} {test : α → σ → Bool}
    (h : succeeds test x) : ∃ a s, x = .ok a s ∧ test a s := by
  cases x with
  | ok a s => exact ⟨a, s, rfl, h⟩
  | error e s => cases h

/-- Whether there is an error that passes a test. -/
def fails (test : ε → Bool) : EStateM.Result ε σ α → Bool
  | .ok _ _ => false
  | .error e _ => test e

theorem exists_of_fails {x : EStateM.Result ε σ α} {test : ε → Bool} (h : fails test x) :
    ∃ e s, x = .error e s ∧ test e := by
  cases x with
  | ok a s => cases h
  | error e s => exact ⟨e, s, rfl, h⟩

/-- What a computation gives, without the state that it leaves. -/
def outcome : EStateM.Result ε σ α → Except ε α
  | .ok a _ => .ok a
  | .error e _ => .error e

/-- The state that a computation leaves. -/
def final : EStateM.Result ε σ α → σ
  | .ok _ s => s
  | .error _ s => s

/-- The computation that gives a result and leaves a state. -/
def leaving : Except ε α → σ → EStateM.Result ε σ α
  | .ok a, s => .ok a s
  | .error e, s => .error e s

@[simp] theorem outcome_leaving (r : Except ε α) (s : σ) : outcome (leaving r s) = r := by
  cases r <;> rfl

@[simp] theorem final_leaving (r : Except ε α) (s : σ) : final (leaving r s) = s := by
  cases r <;> rfl

end Stateful

/-! ### Encodings -/

namespace Encoder

variable {p p' : Progress} {a : α}

theorem lift_ok {x : Except EncodingError α} :
    (lift x) p = .ok a p' ↔ x = .ok a ∧ p = p' := by
  cases x with
  | ok b => simp [lift, Stateful.pure_ok]
  | error e => simp [lift, Stateful.throw_ok]

theorem onTable_ok {f : SymbolTable → Except EncodingError (α × SymbolTable)} :
    (onTable f) p = .ok a p' ↔ ∃ t, f p.table = .ok (a, t) ∧ p' = { p with table := t } := by
  unfold onTable
  cases f p.table <;> grind

theorem pass_ok {text : String} {u : Unit} :
    (pass text) p = .ok u p' ↔ p' = { p with passed := p.passed.insert text } := by
  rw [pass, Stateful.modify_ok]
  exact eq_comm

theorem alone_ok {x : Encoder α} {t t' : SymbolTable} :
    x.alone t = .ok a t' ↔ ∃ p, x { table := t } = .ok a p ∧ p.table = t' := by
  unfold alone
  cases x { table := t } <;> grind

end Encoder

theorem Tabled.lift_ok {f : SymbolTable → Except EncodingError (α × SymbolTable)} {a : α}
    {t t' : SymbolTable} : (Tabled.lift f) t = .ok a t' ↔ f t = .ok (a, t') := by
  unfold Tabled.lift
  cases f t with
  | ok r => obtain ⟨b, t⟩ := r; simp
  | error e => simp

namespace Stepping

variable {s s' : StepProgress} {a : α}

theorem onTable_ok {x : Tabled α} :
    (onTable x) s = .ok a s' ↔ ∃ t, x s.table = .ok a t ∧ s' = { s with table := t } := by
  unfold onTable
  cases x s.table <;> grind

theorem onCache_ok {x : Scheduling α} :
    (onCache x) s = .ok a s' ↔ ∃ c, x s.cache = .ok a c ∧ s' = { s with cache := c } := by
  unfold onCache
  cases x s.cache <;> grind

theorem readBody_ok {source : String} {f : UpdateFunction} :
    (readBody source) s = .ok f s' ↔
      ∃ c, s.cache.read source = (.ok f, c) ∧ s' = { s with cache := c } := by
  unfold readBody
  rcases h : s.cache.read source with ⟨r, c⟩
  cases r <;> grind

end Stepping

end HybridStep
