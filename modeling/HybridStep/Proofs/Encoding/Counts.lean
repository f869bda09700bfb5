import HybridStep.Encoding.Statement
import HybridStep.Proofs.Ordered.Bindings
import Mathlib.Tactic.SplitIfs

/-! # Counts of writes

A plan counts, for each name, the statements before a position that write it. Along a path the count
of a name goes up by one at each statement that writes it, and an arm of a fork starts with the
counts that the path has reached. -/

namespace HybridStep

namespace WritePlan

variable {κ : Type} [DecidableEq κ]

/-- The positions of the write sets that hold a key, the first one at a position. -/
def positions (key : κ) (position : Nat) : List (OrderedSet κ) → List Nat
  | [] => []
  | written :: rest =>
    if key ∈ written then position :: positions key (position + 1) rest
    else positions key (position + 1) rest

theorem getD_addWriter (key key' : κ) (position : Nat) (table : OrderedMap κ (List Nat)) :
    ((addWriter position table key').get? key).getD [] =
      (table.get? key).getD [] ++ if key = key' then [position] else [] := by
  unfold addWriter
  rw [OrderedMap.get?_insert]
  split
  · next h => rw [h]; rfl
  · simp

theorem getD_addWriters (key : κ) (position : Nat) : ∀ (keys : List κ)
    (table : OrderedMap κ (List Nat)), keys.Nodup →
    ((keys.foldl (addWriter position) table).get? key).getD [] =
      (table.get? key).getD [] ++ if key ∈ keys then [position] else []
  | [], table, _ => by simp
  | key' :: keys, table, h => by
    obtain ⟨hk, hkeys⟩ := List.nodup_cons.1 h
    rw [List.foldl_cons, getD_addWriters key position keys _ hkeys, getD_addWriter]
    by_cases he : key = key'
    · subst he
      simp [hk]
    · simp [he]

theorem getD_tableFrom (key : κ) : ∀ (sets : List (OrderedSet κ)) (position : Nat)
    (table : OrderedMap κ (List Nat)),
    ((tableFrom position table sets).get? key).getD [] =
      (table.get? key).getD [] ++ positions key position sets
  | [], _, _ => by simp [tableFrom, positions]
  | written :: rest, position, table => by
    rw [tableFrom, getD_tableFrom key rest, getD_addWriters key position _ _ written.nodup,
      List.append_assoc, positions]
    congr 1
    by_cases h : key ∈ written
    · rw [if_pos h, if_pos (OrderedSet.mem_def.1 h)]; rfl
    · rw [if_neg h, if_neg (fun hm => h (OrderedSet.mem_def.2 hm))]; rfl

theorem length_takeWhile_positions (key : κ) (stop : Nat) : ∀ (sets : List (OrderedSet κ))
    (position : Nat), ((positions key position sets).takeWhile (· < stop)).length =
      (sets.take (stop - position)).countP (fun written => key ∈ written)
  | [], _ => by simp [positions]
  | written :: rest, position => by
    have ih := length_takeWhile_positions key stop rest (position + 1)
    by_cases hlt : position < stop
    · have hsub : stop - position = (stop - (position + 1)) + 1 := by omega
      rw [hsub, List.take_succ_cons, List.countP_cons, ← ih, positions]
      by_cases h : key ∈ written <;> simp [h, hlt]
    · have hz : stop - position = 0 := by omega
      have hz' : stop - (position + 1) = 0 := by omega
      rw [hz'] at ih
      rw [hz, positions]
      by_cases h : key ∈ written
      · simp [h, hlt]
      · simpa [h] using ih

/-- A plan counts the earlier statements that write a key. -/
theorem previous_ofWrites (sets : List (OrderedSet κ)) (key : κ) (position : Nat) :
    (ofWrites sets).previous key position =
      (sets.take position).countP (fun written => key ∈ written) := by
  rw [previous, writers, ofWrites, getD_tableFrom]
  simpa using length_takeWhile_positions key position sets 0

theorem writers_eq_nil {plan : WritePlan κ} {key : κ} (h : key ∉ plan.keys) :
    plan.writers key = [] := by
  rw [writers, OrderedMap.get?_eq_none_iff.2 h]
  rfl

end WritePlan

/-! ### Scopes -/

namespace Scope

theorem getD_countIn (s : Scope) (versions : Versions) (key key' : VarKey) :
    ((s.countIn versions key').get? key).getD 0 =
      (versions.get? key).getD 0 + if key = key' then s.plan.previous key s.position else 0 := by
  simp only [countIn]
  by_cases hk : key = key'
  · subst hk
    by_cases h0 : s.plan.previous key s.position = 0
    · simp [h0]
    · simp [h0]
  · split_ifs
    · rfl
    · rw [OrderedMap.get?_insert, if_neg hk]; rfl

theorem getD_foldl_countIn (s : Scope) (key : VarKey) : ∀ (keys : List VarKey) (base : Versions),
    keys.Nodup → ((keys.foldl s.countIn base).get? key).getD 0 =
      (base.get? key).getD 0 + if key ∈ keys then s.plan.previous key s.position else 0
  | [], base, _ => by simp
  | key' :: keys, base, h => by
    obtain ⟨hk, hkeys⟩ := List.nodup_cons.1 h
    rw [List.foldl_cons, getD_foldl_countIn s key keys _ hkeys, getD_countIn]
    by_cases he : key = key'
    · subst he
      simp [hk]
    · simp [he]

/-- The counts that an arm of a fork starts with are those that the path has reached. -/
theorem getD_versions (s : Scope) (key : VarKey) :
    (s.versions.get? key).getD 0 = s.previous key := by
  rw [versions, getD_foldl_countIn s key s.plan.keys _ s.plan.table.nodup, previous]
  split_ifs with h
  · rfl
  · rw [WritePlan.previous, WritePlan.writers_eq_nil h]; rfl

end Scope

namespace Context

variable {c : Context}

theorem previous_scope (statements : List Node) (base : Versions) (key : VarKey) :
    (c.scope statements base).previous key = (base.get? key).getD 0 := by
  rw [Scope.previous, scope, WritePlan.previous_ofWrites]
  simp

/-- An arm of a fork starts with the counts that the path has reached. -/
theorem previous_scope_versions (statements : List Node) (s : Scope) :
    (c.scope statements s.versions).previous = s.previous := by
  funext key
  rw [previous_scope, Scope.getD_versions]

/-- The scope stands at the start of what is left of a sequence. -/
def At (c : Context) (s : Scope) (left : List Node) : Prop :=
  ∃ before, s.plan = .ofWrites ((before ++ left).map c.writtenKeys) ∧ s.position = before.length

theorem at_scope (statements : List Node) (base : Versions) :
    c.At (c.scope statements base) statements := ⟨[], rfl, rfl⟩

theorem At.next {s : Scope} {n : Node} {rest : List Node} (h : c.At s (n :: rest)) :
    c.At { s with position := s.position + 1 } rest := by
  obtain ⟨before, hplan, hpos⟩ := h
  exact ⟨before ++ [n], by simp [hplan], by simp [hpos]⟩

theorem At.previous_next {s : Scope} {n : Node} {rest : List Node} (h : c.At s (n :: rest))
    (key : VarKey) : Scope.previous { s with position := s.position + 1 } key =
      s.previous key + if key ∈ c.writtenKeys n then 1 else 0 := by
  obtain ⟨before, hplan, hpos⟩ := h
  have hlen : before.length = (before.map c.writtenKeys).length := by simp
  simp only [Scope.previous, hplan, hpos, WritePlan.previous_ofWrites, List.map_append,
    List.map_cons]
  rw [hlen, List.take_left, List.take_length_add_append, List.countP_append, Nat.add_assoc]
  simp

end Context

end HybridStep
