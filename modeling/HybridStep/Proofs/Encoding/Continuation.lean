import HybridStep.Proofs.Encoding.Counts
import Mathlib.Tactic.Tauto

/-! # Counting after a cut

A list of statements can be cut at any position: what stands after the cut, with a plan of its own
and with the counts that were reached there, is counted as it is in the whole list. In this way the
arms of a fork start, and the arms of the forks in them. `Scope.get?_versions` says which names the
counts of a position hold, and with which counts; `Scope.counting_composes` is the main
statement. -/

namespace HybridStep

namespace Scope

/-! ### Which names have counts -/

theorem isSome_countIn (s : Scope) (versions : Versions) (key key' : VarKey) :
    ((s.countIn versions key').get? key).isSome ↔
      (versions.get? key).isSome ∨ key = key' ∧ 0 < s.plan.previous key s.position := by
  simp only [countIn]
  split_ifs with h0
  · constructor
    · exact Or.inl
    · rintro (h | ⟨rfl, hpos⟩)
      · exact h
      · omega
  · rw [OrderedMap.get?_insert]
    split_ifs with hk
    · subst hk
      simp [Nat.pos_of_ne_zero h0]
    · simp [hk]

theorem isSome_foldl_countIn (s : Scope) (key : VarKey) : ∀ (keys : List VarKey) (base : Versions),
    ((keys.foldl s.countIn base).get? key).isSome ↔
      (base.get? key).isSome ∨ key ∈ keys ∧ 0 < s.plan.previous key s.position
  | [], base => by simp
  | key' :: keys, base => by
    rw [List.foldl_cons, isSome_foldl_countIn s key keys, isSome_countIn, List.mem_cons]
    tauto

/-- The names with counts at a position are those with counts at the start and those that were
written since. -/
theorem isSome_versions (s : Scope) (key : VarKey) : (s.versions.get? key).isSome ↔
    (s.base.get? key).isSome ∨ 0 < s.plan.previous key s.position := by
  have hkey : 0 < s.plan.previous key s.position → key ∈ s.plan.keys := by
    refine fun hpos => Decidable.byContradiction fun h => ?_
    rw [WritePlan.previous, WritePlan.writers_eq_nil h] at hpos
    exact Nat.lt_irrefl 0 hpos
  rw [versions, isSome_foldl_countIn]
  tauto

/-- The counts of a position hold the count of each name that has one, and no others. -/
theorem get?_versions (s : Scope) (key : VarKey) : s.versions.get? key =
    if (s.base.get? key).isSome ∨ 0 < s.plan.previous key s.position then some (s.previous key)
    else none := by
  have hcount := s.getD_versions key
  split_ifs with h
  · obtain ⟨count, hget⟩ := Option.isSome_iff_exists.1 ((s.isSome_versions key).2 h)
    rw [hget] at hcount ⊢
    exact congrArg some hcount
  · exact Option.not_isSome_iff_eq_none.1 fun hsome => h ((s.isSome_versions key).1 hsome)

/-! ### Cutting a list of statements -/

section

variable (writes : Node → OrderedSet VarKey) (statements : List Node) (base : Versions)

/-- A position in a list of statements, with what each of them writes and the counts that the list
starts with. `Context.scope` is the first position. -/
def within (position : Nat) : Scope := ⟨.ofWrites (statements.map writes), position, base⟩

/-- A position in what stands after a cut, which starts with the counts that were reached there. -/
def afterCut (cut position : Nat) : Scope :=
  within writes (statements.drop cut) (within writes statements base cut).versions position

/-- The number of statements before a position that write a key. -/
def writersBefore (position : Nat) (key : VarKey) : Nat :=
  (statements.take position).countP fun n => key ∈ writes n

theorem plan_previous_within (position : Nat) (key : VarKey) :
    (within writes statements base position).plan.previous key position =
      writersBefore writes statements position key := by
  rw [within, WritePlan.previous_ofWrites, ← List.map_take, List.countP_map]
  rfl

theorem previous_within (position : Nat) (key : VarKey) :
    (within writes statements base position).previous key =
      (base.get? key).getD 0 + writersBefore writes statements position key :=
  congrArg _ (plan_previous_within writes statements base position key)

/-- The writers up to a position are those before a cut and those after it. -/
theorem writersBefore_cut {i j : Nat} (hij : i ≤ j) (key : VarKey) :
    writersBefore writes statements j key = writersBefore writes statements i key +
      writersBefore writes (statements.drop i) (j - i) key := by
  rw [writersBefore, writersBefore, writersBefore, ← List.countP_append, ← List.take_add,
    Nat.add_sub_cancel' hij]

theorem previous_afterCut {i j : Nat} (hij : i ≤ j) (key : VarKey) :
    (afterCut writes statements base i (j - i)).previous key =
      (within writes statements base j).previous key :=
  calc (afterCut writes statements base i (j - i)).previous key
    _ = (within writes statements base i).previous key +
          writersBefore writes (statements.drop i) (j - i) key := by
      rw [afterCut, previous_within, getD_versions]
    _ = (base.get? key).getD 0 + writersBefore writes statements j key := by
      rw [previous_within, writersBefore_cut writes statements hij, Nat.add_assoc]
    _ = (within writes statements base j).previous key := (previous_within ..).symm

theorem isSome_versions_within (position : Nat) (key : VarKey) :
    ((within writes statements base position).versions.get? key).isSome ↔
      (base.get? key).isSome ∨ 0 < writersBefore writes statements position key := by
  rw [isSome_versions, ← plan_previous_within writes statements base]
  rfl

theorem get?_versions_afterCut {i j : Nat} (hij : i ≤ j) (key : VarKey) :
    (afterCut writes statements base i (j - i)).versions.get? key =
      (within writes statements base j).versions.get? key := by
  have hheld : ((afterCut writes statements base i (j - i)).versions.get? key).isSome ↔
      ((within writes statements base j).versions.get? key).isSome := by
    rw [afterCut, isSome_versions_within, isSome_versions_within, isSome_versions_within,
      writersBefore_cut writes statements hij, Nat.add_pos_iff_pos_or_pos, or_assoc]
  rw [isSome_versions, isSome_versions] at hheld
  rw [get?_versions, get?_versions, previous_afterCut writes statements base hij]
  simp only [hheld]

end

/-- **Counting composes.** What stands after a cut, with the counts that were reached there, answers
for every name as the whole list does at the same statement: with the number of its writes, the
version that a read sees, the version that a write makes, and the count that a further list would
start with. The number of writes is what the list started with and the number of statements before
the position that write the name. -/
theorem counting_composes (writes : Node → OrderedSet VarKey) (statements : List Node)
    (base : Versions) {i j : Nat} (hij : i ≤ j) (key : VarKey) :
    ((afterCut writes statements base i (j - i)).previous key =
        (within writes statements base j).previous key ∧
      (afterCut writes statements base i (j - i)).read key =
        (within writes statements base j).read key ∧
      (afterCut writes statements base i (j - i)).write key =
        (within writes statements base j).write key ∧
      (afterCut writes statements base i (j - i)).versions.get? key =
        (within writes statements base j).versions.get? key) ∧
    (within writes statements base j).previous key =
      (base.get? key).getD 0 + (statements.take j).countP fun n => key ∈ writes n := by
  have hcount := previous_afterCut writes statements base hij key
  refine ⟨⟨hcount, ?_, ?_, get?_versions_afterCut writes statements base hij key⟩,
    previous_within writes statements base j key⟩
  · simp only [read, hcount]
  · simp only [write, hcount]

/-- The names that a statement writes, all of them locals. -/
def localWrites : Node → OrderedSet VarKey :=
  Node.writtenKeys fun
    | .name n => some (.local n)
    | _ => none

/-- The statements `x = a; y = x; x += b; x *= y`. -/
def chainedWrites : List Node :=
  [.assign [.name "x"] (.name "a"), .assign [.name "y"] (.name "x"),
    .augment (.name "x") .add (.name "b"), .augment (.name "x") .mul (.name "y")]

/-- With two writes of `x` before, the last statement of four makes its fifth version, also where it
is counted from a cut after the first. -/
theorem chained_counting_composes :
    1 ≤ 3 ∧ (afterCut localWrites chainedWrites (.ofList [(.local "x", 2)]) 1 2).read (.local "x") =
        .index 4 ∧
      (afterCut localWrites chainedWrites (.ofList [(.local "x", 2)]) 1 2).write (.local "x") =
        5 := by
  have hwhole : (within localWrites chainedWrites (.ofList [(.local "x", 2)]) 3).read (.local "x") =
      .index 4 ∧
      (within localWrites chainedWrites (.ofList [(.local "x", 2)]) 3).write (.local "x") = 5 := by
    decide
  have hcut : 1 ≤ 3 := by decide
  obtain ⟨⟨-, hread, hwrite, -⟩, -⟩ := counting_composes localWrites chainedWrites
    (.ofList [(.local "x", 2)]) hcut (.local "x")
  exact ⟨hcut, hread.trans hwhole.1, hwrite.trans hwhole.2⟩

end Scope

end HybridStep
