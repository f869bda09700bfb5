import HybridStep.Encoding.LocalSorts
import HybridStep.Proofs.Body.Losses

/-! # Passes of the inference of sorts

A pass over a body joins the sorts of the values that it assigns to locals. It never takes a sort
away from a local, and replaces one only by the reals over the integers. So a pass that changes
nothing changes nothing at any of its statements: every local then has a sort that holds all numbers
that it is assigned. -/

namespace HybridStep

namespace TermSort

variable {a b d s : TermSort}

/-- A sort that holds the values of another one is the same, or the reals over the integers. -/
theorem join?_eq_right : a.join? b = some b ↔ a = b ∨ a = .int ∧ b = .real := by
  cases a <;> cases b <;> simp [join?, isNumeric, eq_comm]

theorem join?_trans (h : a.join? b = some b) (h' : b.join? d = some d) : a.join? d = some d := by
  rw [join?_eq_right] at h h' ⊢
  rcases h with rfl | ⟨rfl, rfl⟩
  · exact h'
  · rcases h' with rfl | ⟨h', -⟩
    · exact .inr ⟨rfl, rfl⟩
    · cases h'

/-- Two sorts join if they are the same or if both are numeric. -/
theorem join?_cases (h : a.join? b = some s) :
    (a = s ∧ b = s) ∨ (a.isNumeric ∧ b.isNumeric ∧ s = .real) := by
  unfold join? at h
  split at h
  · next hsame =>
    obtain rfl := Option.some.inj h
    exact .inl ⟨rfl, hsame.symm⟩
  · split at h
    · next hnumeric =>
      obtain ⟨ha, hb⟩ := Bool.and_eq_true_iff.1 hnumeric
      exact .inr ⟨ha, hb, (Option.some.inj h).symm⟩
    · cases h

/-- The join of two sorts holds the values of the first. -/
theorem join?_join? (h : a.join? b = some s) : a.join? s = some s := by
  rcases join?_cases h with ⟨rfl, -⟩ | ⟨ha, -, rfl⟩
  · exact join?_self a
  · cases a with
    | int | real => rfl
    | bool | enum => cases ha

end TermSort

/-- The local that something stands for. -/
def Leaf.local? : Leaf → Option String
  | .local name => some name
  | _ => none

namespace LocalSorts

variable {leaf : Node → Leaf} {S S' T : Table}

/-- Two tables have the same sorts. -/
def Same (S T : Table) : Prop := ∀ name, S.get? name = T.get? name

/-- Every local of a table has in another one a sort that holds its values. -/
def Below (S T : Table) : Prop :=
  ∀ ⦃name s⦄, S.get? name = some s → ∃ s', T.get? name = some s' ∧ s.join? s' = some s'

theorem Same.symm (h : Same S T) : Same T S := fun name => (h name).symm

theorem Same.below (h : Same S T) : Below S T := fun name s hs =>
  ⟨s, (h name).symm.trans hs, TermSort.join?_self s⟩

theorem Below.refl (S : Table) : Below S S := Same.below fun _ => rfl

theorem Below.trans (h : Below S S') (h' : Below S' T) : Below S T := fun name s hs => by
  obtain ⟨s', hs', hle⟩ := h hs
  obtain ⟨s'', hs'', hle'⟩ := h' hs'
  exact ⟨s'', hs'', TermSort.join?_trans hle hle'⟩

theorem Below.antisymm (h : Below S T) (h' : Below T S) : Same S T := fun name => by
  cases hs : S.get? name with
  | none =>
    cases ht : T.get? name with
    | none => rfl
    | some s =>
      obtain ⟨s', hs', -⟩ := h' ht
      cases hs.symm.trans hs'
  | some s =>
    obtain ⟨s', ht, hle⟩ := h hs
    obtain ⟨s'', hs'', hle'⟩ := h' ht
    obtain rfl : s = s'' := Option.some.inj (hs.symm.trans hs'')
    rw [TermSort.join?_comm, hle] at hle'
    rw [ht, hle']

/-- What lies between two tables with the same sorts has these sorts too. -/
theorem Same.of_between (hsame : Same S T) (h : Below S S') (h' : Below S' T) : Same S' T :=
  h'.antisymm (hsame.symm.below.trans h)

/-! ### A pass takes no sort away -/

theorem below_insert {name : String} {s : TermSort}
    (h : ∀ earlier, S.get? name = some earlier → earlier.join? s = some s) :
    Below S (S.insert name s) := fun name' earlier hearlier => by
  rw [OrderedMap.get?_insert]
  by_cases hname : name' = name
  · subst hname
    exact ⟨s, if_pos rfl, h earlier hearlier⟩
  · exact ⟨earlier, (if_neg hname).trans hearlier, TermSort.join?_self earlier⟩

theorem below_record (S : Table) (name : String) : ∀ sort : Option TermSort,
    Below S (record S name sort)
  | none => .refl S
  | some sort => by
    simp only [record]
    split
    · next hnone => exact below_insert fun earlier h => by cases hnone.symm.trans h
    · next earlier hearlier =>
      split
      · next joined hjoined =>
        refine below_insert fun earlier' h => ?_
        obtain rfl := Option.some.inj (hearlier.symm.trans h)
        exact TermSort.join?_join? hjoined
      · exact .refl S

theorem below_recordTarget (sort : Option TermSort) (S : Table) (target : Node) :
    Below S (recordTarget leaf sort S target) := by
  unfold recordTarget
  split
  · exact below_record S _ sort
  · exact .refl S

theorem below_recordTargets (sort : Option TermSort) : ∀ (targets : List Node) (S : Table),
    Below S (targets.foldl (recordTarget leaf sort) S)
  | [], S => .refl S
  | target :: targets, S =>
    (below_recordTarget sort S target).trans (below_recordTargets sort targets _)

mutual

theorem below_join : (n : Node) → (S : Table) → Below S (join leaf S n)
  | .assign targets _, S => below_recordTargets _ targets S
  | .augment target op value, S => by
    simp only [join]
    split
    · exact below_record S _ _
    · exact .refl S
  | .branch _ body orelse, S => (below_joinList body S).trans (below_joinElse orelse _)
  | .block body, S => below_joinList body S
  | .literal _, S => .refl S
  | .name _, S => .refl S
  | .access _, S => .refl S
  | .unary .., S => .refl S
  | .binary .., S => .refl S
  | .logical .., S => .refl S
  | .compare .., S => .refl S
  | .choice .., S => .refl S
  | .ret _, S => .refl S
  | .unsupported _, S => .refl S

theorem below_joinList : (ns : List Node) → (S : Table) → Below S (joinList leaf S ns)
  | [], S => .refl S
  | n :: ns, S => (below_join n S).trans (below_joinList ns _)

theorem below_joinElse : (orelse : Option (List Node)) → (S : Table) →
    Below S (joinElse leaf S orelse)
  | none, S => .refl S
  | some body, S => below_joinList body S

end

/-! ### A pass that changes nothing -/

/-- From the sorts of a table on, a statement changes none of them. -/
def Keeps (leaf : Node → Leaf) (T : Table) (n : Node) : Prop :=
  ∃ S, Same S T ∧ Same (join leaf S n) T

theorem keeps_step {rest : Flow} (hrest : ∀ x ∈ rest.statements, Keeps leaf T x) {n : Node}
    (hn : Keeps leaf T n) : ∀ x ∈ (Flow.step n rest).statements, Keeps leaf T x :=
  List.forall_mem_cons.2 ⟨hn, hrest⟩

mutual

theorem keeps_prepend {rest : Flow} (hrest : ∀ x ∈ rest.statements, Keeps leaf T x) :
    (n : Node) → Keeps leaf T n → ∀ x ∈ (Flow.prepend rest n).statements, Keeps leaf T x
  | .ret _, h => List.forall_mem_singleton.2 h
  | .branch _ body orelse, ⟨S, hS, h⟩ => by
    have hbody : Same (joinList leaf S body) T :=
      hS.of_between (below_joinList body S) ((below_joinElse orelse _).trans h.below)
    exact List.forall_mem_append.2 ⟨keeps_prependList hrest body hS hbody,
      keeps_prependElse hrest orelse hbody h⟩
  | .block body, ⟨_, hS, h⟩ => keeps_prependList hrest body hS h
  | .literal _, h => keeps_step hrest h
  | .name _, h => keeps_step hrest h
  | .access _, h => keeps_step hrest h
  | .assign .., h => keeps_step hrest h
  | .augment .., h => keeps_step hrest h
  | .unary .., h => keeps_step hrest h
  | .binary .., h => keeps_step hrest h
  | .logical .., h => keeps_step hrest h
  | .compare .., h => keeps_step hrest h
  | .choice .., h => keeps_step hrest h
  | .unsupported _, h => keeps_step hrest h

theorem keeps_prependList {rest : Flow} (hrest : ∀ x ∈ rest.statements, Keeps leaf T x) :
    (ns : List Node) → ∀ {S : Table}, Same S T → Same (joinList leaf S ns) T →
      ∀ x ∈ (Flow.prependList rest ns).statements, Keeps leaf T x
  | [], _, _, _ => hrest
  | n :: ns, S, hS, h => by
    have hn : Same (join leaf S n) T :=
      hS.of_between (below_join n S) ((below_joinList ns _).trans h.below)
    exact keeps_prepend (keeps_prependList hrest ns hn h) n ⟨S, hS, hn⟩

theorem keeps_prependElse (hrest : ∀ x ∈ rest.statements, Keeps leaf T x) :
    (orelse : Option (List Node)) → ∀ {S : Table}, Same S T → Same (joinElse leaf S orelse) T →
      ∀ x ∈ (Flow.prependElse rest orelse).statements, Keeps leaf T x
  | none, _, _, _ => hrest
  | some body, _, hS, h => keeps_prependList hrest body hS h

end

/-- **A pass that changes no sort changes none at any statement that a path comes to.** -/
theorem keeps_of_reaches {body : List Node} (h : Same (joinList leaf T body) T) {n : Node}
    (hn : Node.Reaches body n) : Keeps leaf T n := by
  have hdone : ∀ x ∈ Flow.done.statements, Keeps leaf T x := fun x hx => nomatch hx
  exact keeps_prependList hdone body (fun _ => rfl) h n (Flow.mem_statements_of_reaches hn)

/-! ### What an expression is told from -/

/-- The locals whose sorts are looked up to tell the sort of an expression. -/
def consulted (leaf : Node → Leaf) : Node → List String
  | .name n => (leaf (.name n)).local?.toList
  | .access segments => (leaf (.access segments)).local?.toList
  | .unary _ operand => consulted leaf operand
  | .binary _ left right => consulted leaf left ++ consulted leaf right
  | .choice _ body orelse => consulted leaf body ++ consulted leaf orelse
  | .literal _ => []
  | .logical _ _ => []
  | .compare _ _ _ => []
  | .assign _ _ => []
  | .augment _ _ _ => []
  | .branch _ _ _ => []
  | .ret _ => []
  | .block _ => []
  | .unsupported _ => []

theorem ofLeaf_congr {x : Leaf} (h : ∀ name ∈ x.local?.toList, S.get? name = T.get? name) :
    ofLeaf S x = ofLeaf T x := by
  cases x with
  | «local» name => exact h name (List.mem_singleton_self name)
  | sort | unknown => rfl

/-- What is told of an expression depends on the sorts of the locals in it alone. -/
theorem infer_congr_on : ∀ n : Node, (∀ name ∈ consulted leaf n, S.get? name = T.get? name) →
    infer leaf S n = infer leaf T n
  | .literal _, _ => rfl
  | .name _, h => ofLeaf_congr h
  | .access _, h => ofLeaf_congr h
  | .unary op operand, h => by simp only [infer, infer_congr_on operand h]
  | .binary op left right, h => by
    obtain ⟨hleft, hright⟩ := List.forall_mem_append.1 h
    simp only [infer, infer_congr_on left hleft, infer_congr_on right hright]
  | .choice _ body orelse, h => by
    obtain ⟨hbody, horelse⟩ := List.forall_mem_append.1 h
    simp only [infer, infer_congr_on body hbody, infer_congr_on orelse horelse]
  | .logical .., _ => rfl
  | .compare .., _ => rfl
  | .assign .., _ => rfl
  | .augment .., _ => rfl
  | .branch .., _ => rfl
  | .ret _, _ => rfl
  | .block _, _ => rfl
  | .unsupported _, _ => rfl

theorem infer_congr (h : Same S T) (n : Node) : infer leaf S n = infer leaf T n :=
  infer_congr_on n fun name _ => h name

/-! ### Sorts that hold what is assigned -/

/-- A local has a sort to which another one that joins to it adds nothing. -/
def Absorbs (T : Table) (name : String) (s : TermSort) : Prop :=
  ∃ earlier, T.get? name = some earlier ∧ ∀ joined, earlier.join? s = some joined → joined = earlier

theorem absorbs_of_record {name : String} {s : TermSort} (hS : Same S T)
    (h : Same (record S name (some s)) T) : Absorbs T name s := by
  have hname := h name
  simp only [record] at hname
  split at hname
  · next hnone =>
    rw [OrderedMap.get?_insert, if_pos rfl, ← hS, hnone] at hname
    cases hname
  · next earlier hearlier =>
    refine ⟨earlier, (hS name).symm.trans hearlier, fun joined hjoined => ?_⟩
    rw [hjoined] at hname
    simp only [OrderedMap.get?_insert, if_pos, ← hS name, hearlier] at hname
    exact Option.some.inj hname

theorem recordTarget_of_fold {sort : Option TermSort} {target : Node} :
    ∀ {targets : List Node} {S : Table}, Same S T →
      Same (targets.foldl (recordTarget leaf sort) S) T → target ∈ targets →
        ∃ S, Same S T ∧ Same (recordTarget leaf sort S target) T
  | first :: targets, S, hS, h, htarget => by
    have hfirst : Same (recordTarget leaf sort S first) T :=
      hS.of_between (below_recordTarget sort S first)
        ((below_recordTargets sort targets _).trans h.below)
    rcases List.mem_cons.1 htarget with rfl | htarget
    · exact ⟨S, hS, hfirst⟩
    · exact recordTarget_of_fold hfirst h htarget

/-- Where an assignment changes no sort, its targets absorb the sort of its value. -/
theorem Keeps.assign {targets : List Node} {target value : Node} {name : String} {s : TermSort}
    (h : Keeps leaf T (.assign targets value)) (htarget : target ∈ targets)
    (hleaf : leaf target = .local name) (hs : infer leaf T value = some s) : Absorbs T name s := by
  obtain ⟨S, hS, h⟩ := h
  obtain ⟨S', hS', h⟩ := recordTarget_of_fold hS h htarget
  rw [infer_congr hS, hs, recordTarget, hleaf] at h
  exact absorbs_of_record hS' h

/-- Where a number becomes a real by an operation, something is told of the operation alone. -/
theorem ofBinary_none {op : BinaryOp} {right : Option TermSort}
    (h : ofBinary op (some .int) right = some .real) : ∃ s, ofBinary op none right = some s := by
  cases op with
  | div => exact ⟨.real, by simp [ofBinary]⟩
  | mod | shl | shr => cases h
  | _ =>
    cases right with
    | none => cases h
    | some s => exact ⟨s, rfl⟩

theorem Keeps.augment {target value : Node} {op : BinaryOp} {name : String} {s : TermSort}
    (h : Keeps leaf T (.augment target op value)) (hleaf : leaf target = .local name)
    (hs : ofBinary op (T.get? name) (infer leaf T value) = some s) : Absorbs T name s := by
  obtain ⟨S, hS, h⟩ := h
  simp only [join, hleaf, infer_congr hS, hS name, hs] at h
  exact absorbs_of_record hS h

end LocalSorts

end HybridStep
