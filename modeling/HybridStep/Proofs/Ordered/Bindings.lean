import HybridStep.Ordered.Map
import HybridStep.Ordered.Set

/-! # Bindings of ordered maps

What a lookup says about the bindings of a map, and the other way round. -/

namespace HybridStep.OrderedMap

variable {κ α : Type} [DecidableEq κ] {m : OrderedMap κ α} {k k' : κ} {v : α}

theorem get?_eq_none_iff : m.get? k = none ↔ k ∉ m.keys := by
  rw [get?, List.lookup_eq_none_iff, keys, List.mem_map]
  constructor
  · rintro h ⟨p, hp, rfl⟩
    simpa using h p hp
  · intro h p hp
    simp only [bne_iff_ne, ne_eq]
    exact fun he => h ⟨p, hp, he.symm⟩

theorem isSome_get? : (m.get? k).isSome ↔ k ∈ m.keys := by
  rw [Option.isSome_iff_ne_none, ne_eq, get?_eq_none_iff, Decidable.not_not]

theorem mem_entries : (k, v) ∈ m.entries ↔ m.get? k = some v := by
  obtain ⟨entries, hnodup⟩ := m
  induction entries with
  | nil => simp [get?]
  | cons p rest ih =>
    obtain ⟨k', v'⟩ := p
    rw [List.map_cons, List.nodup_cons] at hnodup
    have hrest : (k, v) ∈ rest ↔ rest.lookup k = some v := ih hnodup.2
    rw [List.mem_cons, Prod.mk.injEq, hrest, get?, List.lookup_cons]
    by_cases hk : k = k'
    · subst hk
      have hnone : rest.lookup k = none := (get?_eq_none_iff (m := ⟨rest, hnodup.2⟩)).2 hnodup.1
      simp [hnone, eq_comm]
    · simp [hk, beq_false_of_ne hk]

/-- Binding a key to the value that it has changes nothing. -/
theorem insert_of_get? (h : m.get? k = some v) : m.insert k v = m := by
  have hput : ∀ {l : List (κ × α)}, l.lookup k = some v → putBinding k v l = l := by
    intro l
    induction l with
    | nil => exact fun h => nomatch h
    | cons p rest ih =>
      obtain ⟨k', v'⟩ := p
      intro h
      rw [List.lookup_cons] at h
      by_cases hk : k = k'
      · subst hk
        simp only [BEq.rfl, Option.some.injEq] at h
        rw [putBinding, if_pos rfl, h]
      · simp only [beq_false_of_ne hk] at h
        rw [putBinding, if_neg hk, ih h]
  obtain ⟨entries, hnodup⟩ := m
  simp only [insert, mk.injEq]
  exact hput h

theorem mem_keys_foldl_insert (l : List (κ × α)) :
    k ∈ m.keys → k ∈ (l.foldl (fun m p => m.insert p.1 p.2) m).keys := by
  induction l generalizing m with
  | nil => exact id
  | cons p l ih =>
    intro hk
    refine ih ?_
    rw [← isSome_get?, get?_insert]
    split
    · rfl
    · exact isSome_get?.2 hk

/-- Only no bindings make the empty map. -/
theorem ofList_eq_empty_iff {l : List (κ × α)} : ofList l = empty ↔ l = [] := by
  constructor
  · intro h
    cases l with
    | nil => rfl
    | cons p l =>
      have hfirst : p.1 ∈ (ofList (p :: l)).keys := by
        refine mem_keys_foldl_insert l ?_
        rw [← isSome_get?, get?_insert, if_pos rfl]
        rfl
      rw [h] at hfirst
      exact absurd hfirst List.not_mem_nil
  · rintro rfl
    rfl

end HybridStep.OrderedMap
