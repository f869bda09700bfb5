import HybridStep.Proofs.Encoding.Handles
import HybridStep.Proofs.Ordered.Bindings

/-! # Names of handles

A table gives different handles different names unless names and numbers happen to run together, as
for a port `x` in its version `1` and a port `x_1`. Whether it does can be decided by looking at its
symbols. -/

namespace HybridStep.SymbolTable

/-- Different handles have different names. -/
def NamesDistinct (t : SymbolTable) : Prop :=
  ∀ {key v x key' v' x'}, t.get? key v = some (.var x) → t.get? key' v' = some (.var x') →
    x.name = x'.name → key = key' ∧ v = v'

variable {t : SymbolTable}

theorem mem_symbols {key : SymbolKey} {v : Version} {term : Term} :
    (key, v, term) ∈ t.symbols ↔ t.get? key v = some term := by
  simp only [symbols, get?, List.mem_flatMap, List.mem_map, Prod.exists, Prod.mk.injEq,
    Option.bind_eq_some_iff]
  constructor
  · rintro ⟨_, versions, hkey, _, _, hv, rfl, rfl, rfl⟩
    exact ⟨versions, OrderedMap.mem_entries.1 hkey, OrderedMap.mem_entries.1 hv⟩
  · rintro ⟨versions, hkey, hv⟩
    exact ⟨key, versions, OrderedMap.mem_entries.2 hkey, v, term, OrderedMap.mem_entries.2 hv,
      rfl, rfl, rfl⟩

/-- Whether two symbols are different handles with one name. -/
def clash : SymbolKey × Version × Term → SymbolKey × Version × Term → Bool
  | (key, v, .var x), (key', v', .var x') => x.name = x'.name ∧ ¬ (key = key' ∧ v = v')
  | _, _ => false

theorem namesDistinct_iff :
    t.NamesDistinct ↔ ∀ a ∈ t.symbols, ∀ b ∈ t.symbols, clash a b = false := by
  constructor
  · rintro h ⟨key, v, term⟩ ha ⟨key', v', term'⟩ hb
    rw [mem_symbols] at ha hb
    cases term <;> cases term' <;> try rfl
    simpa [clash] using h ha hb
  · intro h key v x key' v' x' hx hx' hname
    have := h _ (mem_symbols.2 hx) _ (mem_symbols.2 hx')
    simpa [clash, hname] using this

instance : Decidable t.NamesDistinct := decidable_of_iff _ namesDistinct_iff.symm

end HybridStep.SymbolTable
