/-! # Maps that keep the order of arrival

A finite map as the list of its bindings, in the order in which the keys were first bound. Binding a
key again replaces its value and leaves its place. The keys are pairwise different, and that is part
of the type, so a lookup needs no rule for which of two bindings counts. -/

namespace HybridStep

variable {κ α : Type}

section

variable [DecidableEq κ]

/-- Replaces the value of `k` where it stands, or adds a binding at the end. -/
def putBinding (k : κ) (v : α) : List (κ × α) → List (κ × α)
  | [] => [(k, v)]
  | (k', v') :: rest => if k = k' then (k, v) :: rest else (k', v') :: putBinding k v rest

theorem map_fst_putBinding (k : κ) (v : α) (l : List (κ × α)) :
    (putBinding k v l).map Prod.fst =
      if k ∈ l.map Prod.fst then l.map Prod.fst else l.map Prod.fst ++ [k] := by
  induction l with
  | nil => simp [putBinding]
  | cons p rest ih =>
    obtain ⟨k', v'⟩ := p
    by_cases h : k = k'
    · simp [putBinding, h]
    · by_cases hr : k ∈ rest.map Prod.fst <;> simp_all [putBinding]

theorem nodup_putBinding (k : κ) (v : α) {l : List (κ × α)} (h : (l.map Prod.fst).Nodup) :
    ((putBinding k v l).map Prod.fst).Nodup := by
  rw [map_fst_putBinding]
  split
  · exact h
  · next hk => exact List.nodup_append.2 ⟨h, by simp, by rintro a ha b hb rfl; simp_all⟩

theorem lookup_putBinding (k k' : κ) (v : α) (l : List (κ × α)) :
    (putBinding k v l).lookup k' = if k' = k then some v else l.lookup k' := by
  induction l with
  | nil =>
    by_cases h : k' = k
    · simp [putBinding, h]
    · simp [putBinding, List.lookup_cons, h, beq_false_of_ne h]
  | cons p rest ih =>
    obtain ⟨a, b⟩ := p
    by_cases h : k = a
    · subst h
      by_cases h' : k' = k
      · simp [putBinding, h']
      · simp [putBinding, List.lookup_cons, h', beq_false_of_ne h']
    · by_cases h' : k' = a
      · subst h'
        simp [putBinding, h, Ne.symm h]
      · simp [putBinding, List.lookup_cons, h, beq_false_of_ne h', ih]

end

/-- A finite map whose bindings stand in the order in which their keys arrived. -/
structure OrderedMap (κ α : Type) where
  entries : List (κ × α)
  nodup_keys : (entries.map Prod.fst).Nodup

namespace OrderedMap

/-- The map that binds nothing. -/
def empty : OrderedMap κ α := ⟨[], List.nodup_nil⟩

instance : Inhabited (OrderedMap κ α) := ⟨empty⟩

/-- The keys in the order of their arrival. -/
def keys (m : OrderedMap κ α) : List κ := m.entries.map Prod.fst

/-- The values in the order of arrival of their keys. -/
def values (m : OrderedMap κ α) : List α := m.entries.map Prod.snd

/-- The number of keys. -/
def size (m : OrderedMap κ α) : Nat := m.entries.length

theorem nodup (m : OrderedMap κ α) : m.keys.Nodup := m.nodup_keys

variable [DecidableEq κ]

/-- The value bound to `k`. -/
def get? (m : OrderedMap κ α) (k : κ) : Option α := m.entries.lookup k

/-- Binds `k` to `v`, in the place of an earlier binding of `k` if there is one. -/
def insert (m : OrderedMap κ α) (k : κ) (v : α) : OrderedMap κ α :=
  ⟨putBinding k v m.entries, nodup_putBinding k v m.nodup_keys⟩

/-- Binds `k` to `v` unless `k` is bound. -/
def insertNew (m : OrderedMap κ α) (k : κ) (v : α) : OrderedMap κ α :=
  if (m.get? k).isSome then m else m.insert k v

/-- Whether `k` is bound. -/
def contains (m : OrderedMap κ α) (k : κ) : Bool := (m.get? k).isSome

/-- Binds the pairs one after the other. -/
def ofList (l : List (κ × α)) : OrderedMap κ α :=
  l.foldl (fun m p => m.insert p.1 p.2) empty

@[simp] theorem get?_empty (k : κ) : (empty : OrderedMap κ α).get? k = none := rfl

@[simp] theorem get?_insert (m : OrderedMap κ α) (k k' : κ) (v : α) :
    (m.insert k v).get? k' = if k' = k then some v else m.get? k' :=
  lookup_putBinding k k' v m.entries

@[simp] theorem keys_insert (m : OrderedMap κ α) (k : κ) (v : α) :
    (m.insert k v).keys = if k ∈ m.keys then m.keys else m.keys ++ [k] :=
  map_fst_putBinding k v m.entries

end OrderedMap

end HybridStep
