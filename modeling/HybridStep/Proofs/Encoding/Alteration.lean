import HybridStep.Proofs.Body.Flow
import HybridStep.Proofs.Encoding.Counts
import HybridStep.Proofs.Encoding.Override
import HybridStep.Proofs.Encoding.Writing

/-! # Alterations of valuations

A run is recorded by giving the handles that it makes its values, one statement after the other.
`Alters` says that a valuation differs from another one only in handles that are still to be made
after some writes; what has been encoded before reads none of them. `Agrees` says that two
valuations agree in all names that the constraints of a body can hold. Both rest on different
handles having different names. -/

namespace HybridStep

/-- The values of a store, by the keys of handles. -/
def Store.valueOf {K : Type} (st : Store K) : SymbolKey → Val K
  | .step => .real st.dt
  | .port q => st.val (.port q)
  | .local name _ => st.val (.local name)

namespace Context

variable {c : Context} {T : SymbolTable} {W : OrderedSet PortId}

/-- The names that a body can give versions: its locals and the ports that it writes. -/
def Own (c : Context) : VarKey → Prop
  | .port q => q ∈ c.writtenPorts
  | .local _ => True

/-- The handles that are made after given numbers of writes. -/
def Fresh (c : Context) (count : VarKey → Nat) (key : VarKey) (v : Version) : Prop :=
  c.Own key ∧ ((∃ j, v = .index j ∧ count key < j) ∨ v = .current ∧ ∃ q, key = .port q)

/-- The handles that the constraints of a body can hold. -/
def Visible (c : Context) (W : OrderedSet PortId) (key : VarKey) (v : Version) : Prop :=
  c.Own key ∨ v = .current ∧ ∃ q, key = .port q ∧ q ∈ W

/-- The handles of a body among which are some of its names. -/
def Handles (c : Context) (D : VarKey → Version → Prop) (key : SymbolKey) (v : Version) : Prop :=
  ∃ k, c.symbolKey k = key ∧ D k v

/-- A valuation that differs from another one at most in handles made after given numbers of writes,
and keeps the sorts of handles. -/
structure Alters {K : Type} (c : Context) (T : SymbolTable) (count : VarKey → Nat)
    (σ σ' : Valuation K) : Prop where
  changes : T.Changes (c.Handles (c.Fresh count)) σ σ'
  sorted : T.Sorted σ → T.Sorted σ'

/-- Two valuations that agree in the time step and in the handles that the constraints of a body can
hold. -/
structure Agrees {K : Type} (c : Context) (T : SymbolTable) (W : OrderedSet PortId)
    (σ σ' : Valuation K) : Prop where
  step : σ' T.stepName = σ T.stepName
  same {key : VarKey} {v : Version} {x : Variable} :
    T.get? (c.symbolKey key) v = some (.var x) → c.Visible W key v → σ' x.name = σ x.name

variable {K : Type} {count count' : VarKey → Nat} {σ σ' σ'' : Valuation K}
variable {D : VarKey → Version → Prop} {key : VarKey} {v : Version}

theorem Agrees.rfl : c.Agrees T W σ σ := ⟨Eq.refl _, fun _ _ => Eq.refl _⟩

theorem symbolKey_injective : Function.Injective c.symbolKey := by
  intro a b h
  cases a <;> cases b <;> simp_all [symbolKey]

theorem symbolKey_ne_step (key : VarKey) : c.symbolKey key ≠ .step := by
  cases key <;> simp [symbolKey]

@[simp] theorem handles_symbolKey : c.Handles D (c.symbolKey key) v ↔ D key v :=
  ⟨fun ⟨_, hk, hD⟩ => symbolKey_injective hk ▸ hD, fun hD => ⟨key, rfl, hD⟩⟩

theorem not_handles_step : ¬ c.Handles D .step v := fun ⟨k, hk, _⟩ => symbolKey_ne_step k hk

theorem Handles.mono {D' : VarKey → Version → Prop} {key : SymbolKey} (h : c.Handles D key v)
    (hD : ∀ key v, D key v → D' key v) : c.Handles D' key v :=
  h.imp fun _ hk => ⟨hk.1, hD _ _ hk.2⟩

theorem Fresh.mono (h : c.Fresh count' key v) (hc : ∀ key, count key ≤ count' key) :
    c.Fresh count key v := by
  refine ⟨h.1, h.2.imp_left ?_⟩
  rintro ⟨j, rfl, hj⟩
  exact ⟨j, rfl, (hc key).trans_lt hj⟩

theorem Alters.trans (h : c.Alters T count σ σ') (h' : c.Alters T count' σ' σ'')
    (hc : ∀ key, count key ≤ count' key) : c.Alters T count σ σ'' := by
  refine ⟨h.changes.trans (h'.changes.mono fun key v hk => ?_), fun hs => h'.sorted (h.sorted hs)⟩
  exact hk.mono fun _ _ hf => hf.mono hc

/-! ### Overriding -/

@[simp] theorem valueOf_symbolKey (st : Store K) (key : VarKey) :
    st.valueOf (c.symbolKey key) = st.val key := by
  cases key <;> rfl

variable {st : Store K}

/-- The values of a store have the sorts of the handles. -/
theorem SortedStore.valueOf (hs : c.SortedStore st) (hT : c.SortedTable T) {key : SymbolKey}
    {x : Variable} (hx : T.get? key v = some (.var x)) (hD : c.Handles D key v) :
    (st.valueOf key).sort = x.sort := by
  obtain ⟨k, rfl, -⟩ := hD
  rw [valueOf_symbolKey, hs.val]
  exact (hT hx).symm

theorem alters_override (hn : T.NamesDistinct) (hT : c.SortedTable T) (hs : c.SortedStore st)
    (hD : ∀ key v, D key v → c.Fresh count key v) :
    c.Alters T count σ (T.override (c.Handles D) st.valueOf σ) :=
  ⟨T.changes_override.mono fun _ _ hk => hk.mono hD,
    fun hσ _ _ _ hx => T.override_sorted hn (hs.valueOf hT) hx (hσ hx)⟩

/-! ### What alterations keep -/

/-- A table with which a body is encoded: different handles have different names and the sorts of
what they stand for, and no port that the body writes is noted as written. -/
structure Proper (c : Context) (T : SymbolTable) (W : OrderedSet PortId) : Prop where
  distinct : T.NamesDistinct
  canonical : T.Canonical c.model
  sorted : c.SortedTable T
  unwritten {q : PortId} : q ∈ c.writtenPorts → q ∉ W

theorem Alters.same_handle (h : c.Alters T count σ σ') (hT : c.Proper T W) (key : VarKey)
    {v : Version} {x : Variable} (hx : T.get? (c.symbolKey key) v = some (.var x))
    (hf : ¬ c.Fresh count key v) : σ' x.name = σ x.name :=
  h.changes.same hT.distinct hx (by rwa [handles_symbolKey])

theorem Alters.same_step (h : c.Alters T count σ σ') (hT : c.Proper T W) :
    σ' T.stepName = σ T.stepName :=
  h.changes.same (x := ⟨T.stepName, .real⟩) hT.distinct hT.canonical.step not_handles_step

theorem not_fresh_readVersion (hT : c.Proper T W) (key : VarKey) :
    ¬ c.Fresh count key (readVersion W key (count key)) := by
  rintro ⟨hown, ⟨j, hj, hlt⟩ | ⟨hv, q, rfl⟩⟩
  · cases hk : count key with
    | succ k =>
      simp only [hk, readVersion, Version.index.injEq] at hj
      omega
    | zero =>
      cases key with
      | «local» name => simp [hk, readVersion] at hj
      | port q =>
        simp only [hk, readVersion, SymbolTable.entryVersion, Version.prior] at hj
        split at hj
        · cases hj
        · cases hj
          omega
  · cases hk : count (.port q) with
    | succ k => simp [hk, readVersion] at hv
    | zero =>
      simp only [hk, readVersion, SymbolTable.entryVersion, Version.prior] at hv
      split at hv
      · next hW => exact hT.unwritten hown hW
      · cases hv

variable [Field K] [LinearOrder K] {A : Arith K} {st : Store K}

theorem denotes_congr (hT : c.Proper T W) {key : SymbolKey} {v : Version} {t : Term} {x : Val K}
    (h : T.get? key v = some t) (hσ : ∀ y, t = .var y → σ' y.name = σ y.name)
    (hd : t.Denotes A σ x) : t.Denotes A σ' x := by
  rcases hT.canonical.var_or_prior h with ⟨y, rfl⟩ | ⟨-, -, k, rfl⟩
  · exact ⟨(hσ y rfl).trans hd.1, hd.2⟩
  · exact hd

theorem Alters.reads (h : c.Alters T count σ σ') (hT : c.Proper T W)
    (hr : c.Reads A σ T W count st) : c.Reads A σ' T W count st := by
  refine ⟨(h.same_step hT).trans hr.dt, fun {key t} hg => denotes_congr hT hg ?_ (hr.names hg)⟩
  rintro y rfl
  exact h.same_handle hT _ hg (not_fresh_readVersion hT key)

theorem Alters.records (h : c.Alters T count' σ σ') (hT : c.Proper T W) {keys : List VarKey}
    (hc : ∀ key ∈ keys, count' key = count key + 1) (hr : c.Records A σ T count keys st) :
    c.Records A σ' T count keys st := by
  intro key hk t hg
  refine denotes_congr hT hg ?_ (hr key hk t hg)
  rintro y rfl
  refine h.same_handle hT _ hg ?_
  rintro ⟨-, ⟨j, hj, hlt⟩ | ⟨hv, -⟩⟩
  · cases hj
    have := hc key hk
    omega
  · cases hv

theorem visible_readVersion {key : VarKey} {x : Variable} (hT : c.Proper T W)
    (hc : ∀ q, count (.port q) ≠ 0 → q ∈ c.writtenPorts)
    (hg : T.get? (c.symbolKey key) (readVersion W key (count key)) = some (.var x)) :
    c.Visible W key (readVersion W key (count key)) := by
  cases key with
  | «local» name => exact .inl trivial
  | port q =>
    cases hk : count (.port q) with
    | succ k => exact .inl (hc q (by omega))
    | zero =>
      rw [hk] at hg
      simp only [readVersion, SymbolTable.entryVersion] at hg ⊢
      split_ifs at hg ⊢ with hW
      · exact .inr ⟨rfl, q, rfl, hW⟩
      · obtain ⟨k, hk, -⟩ := SymbolTable.portTerm_prior (hT.canonical.fits hg)
        cases hk

theorem Agrees.reads (h : c.Agrees T W σ σ') (hT : c.Proper T W)
    (hc : ∀ q, count (.port q) ≠ 0 → q ∈ c.writtenPorts) (hr : c.Reads A σ T W count st) :
    c.Reads A σ' T W count st := by
  refine ⟨h.step.trans hr.dt, fun {key t} hg => denotes_congr hT hg ?_ (hr.names hg)⟩
  rintro y rfl
  exact h.same hg (visible_readVersion hT hc hg)

theorem Agrees.records (h : c.Agrees T W σ σ') (hT : c.Proper T W) {keys : List VarKey}
    (hk : ∀ key ∈ keys, c.Own key) (hr : c.Records A σ T count keys st) :
    c.Records A σ' T count keys st := by
  intro key hkey t hg
  refine denotes_congr hT hg ?_ (hr key hkey t hg)
  rintro y rfl
  exact h.same hg (.inl (hk key hkey))

theorem Agrees.closes (h : c.Agrees T W σ σ') (hT : c.Proper T W) {ports : List PortId}
    (hp : ∀ q ∈ ports, q ∈ c.writtenPorts) (hr : Closes A σ T ports st) :
    Closes A σ' T ports st := by
  intro q hq t hg
  refine denotes_congr hT hg ?_ (hr q hq t hg)
  rintro y rfl
  have hkey : T.get? (c.symbolKey (.port q)) .current = some (.var y) := hg
  exact h.same hkey (.inl (hp q hq))

/-- After a statement, the handles under which names are read denote the values after it. -/
theorem Reads.next {st' : Store K} {keys : List VarKey} (hr : c.Reads A σ T W count st)
    (hw : c.Writes keys st st') (hrec : c.Records A σ T count keys st')
    (hc : ∀ key, count' key = count key + if key ∈ keys then 1 else 0) :
    c.Reads A σ T W count' st' := by
  refine ⟨hw.dt ▸ hr.dt, fun {key t} hg => ?_⟩
  rw [hc] at hg
  by_cases hk : key ∈ keys
  · rw [if_pos hk] at hg
    exact hrec key hk t hg
  · rw [if_neg hk] at hg
    rw [hw.frame hk]
    exact hr.names hg

end Context

end HybridStep
