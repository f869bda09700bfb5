import HybridStep.Body.Cache

/-! # Reading through a cache

A body that a cache has stays in it, so a step gets the same body for one text wherever it asks. -/

namespace HybridStep.BodyCache

/-- The body that a cache has for a text. -/
def body? (c : BodyCache) (source : String) : Option UpdateFunction := c.functions.get? (key source)

/-- One cache has the bodies of another one. -/
def Extends (c c' : BodyCache) : Prop :=
  ∀ ⦃k f⦄, c.functions.get? k = some f → c'.functions.get? k = some f

variable {c c' c'' : BodyCache}

theorem Extends.refl (c : BodyCache) : c.Extends c := fun _ _ h => h

theorem Extends.trans (h : c.Extends c') (h' : c'.Extends c'') : c.Extends c'' :=
  fun _ _ hf => h' (h hf)

theorem Extends.body? (h : c.Extends c') {source : String} {f : UpdateFunction}
    (hf : c.body? source = some f) : c'.body? source = some f := h hf

/-- What has been read is kept. -/
theorem read_ok {source : String} {f : UpdateFunction} (h : c.read source = (.ok f, c')) :
    c.Extends c' ∧ c'.body? source = some f := by
  unfold read at h
  split at h
  · next g hg =>
    cases h
    exact ⟨.refl c, hg⟩
  · next hnone =>
    split at h
    · next g hg =>
      cases h
      refine ⟨fun k f hk => ?_, by simp [BodyCache.body?]⟩
      rw [OrderedMap.get?_insert, if_neg]
      · exact hk
      · rintro rfl
        rw [hnone] at hk
        cases hk
    · cases h

end HybridStep.BodyCache
