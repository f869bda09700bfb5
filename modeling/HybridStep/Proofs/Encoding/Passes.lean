import HybridStep.Proofs.Encoding.Inference
import HybridStep.Proofs.Ordered.Bindings
import Mathlib.Data.List.Induction
import Mathlib.Tactic.SplitIfs

/-! # Two passes over a body

The sorts of the locals of a body are told by two passes over its assignments, one after the other,
and completed from the places into which locals flow. A further pass changes nothing just where
every local absorbs what its assignments tell. Two passes do not settle every body: what an
assignment tells it tells from the locals in its value, and the sort of one of them can come too
late, after the assignment in the second pass or from the place of its use. -/

namespace HybridStep

namespace Node

mutual

/-- The assignments in a statement, in the order in which a pass comes to them. -/
def assignments : Node → List Node
  | assign targets value => [.assign targets value]
  | augment target op value => [.augment target op value]
  | branch _ body orelse => assignmentsOfList body ++ assignmentsOfElse orelse
  | block body => assignmentsOfList body
  | literal _ => []
  | name _ => []
  | access _ => []
  | unary _ _ => []
  | binary _ _ _ => []
  | logical _ _ => []
  | compare _ _ _ => []
  | choice _ _ _ => []
  | ret _ => []
  | unsupported _ => []

/-- The assignments in several statements. -/
def assignmentsOfList : List Node → List Node
  | [] => []
  | n :: ns => n.assignments ++ assignmentsOfList ns

/-- The assignments in an arm, if it is there. -/
def assignmentsOfElse : Option (List Node) → List Node
  | none => []
  | some body => assignmentsOfList body

end

end Node

namespace TermSort

variable {a b s : TermSort}

/-- Joining a sort to another one gives that one again, whenever the two join. -/
def Absorbs (a s : TermSort) : Prop := ∀ joined, a.join? s = some joined → joined = a

theorem absorbs_self (a : TermSort) : a.Absorbs a := fun joined h => by
  rw [join?_self] at h
  exact (Option.some.inj h).symm

theorem absorbs_real (s : TermSort) : real.Absorbs s := fun joined h => by
  rcases join?_cases h with ⟨rfl, -⟩ | ⟨-, -, rfl⟩ <;> rfl

theorem Absorbs.getD (h : a.Absorbs s) : (a.join? s).getD a = a := by
  cases hjoin : a.join? s with
  | none => rfl
  | some joined => exact h joined hjoin

/-- What a sort absorbs, one that holds its values absorbs too. -/
theorem Absorbs.mono (h : a.Absorbs s) (hle : a.join? b = some b) : b.Absorbs s := by
  rcases join?_eq_right.1 hle with rfl | ⟨-, rfl⟩
  · exact h
  · exact absorbs_real s

/-- A sort to which another one has been joined absorbs it. -/
theorem absorbs_getD (a s : TermSort) : ((a.join? s).getD a).Absorbs s := by
  cases hjoin : a.join? s with
  | none => exact fun joined h => by cases hjoin.symm.trans h
  | some joined =>
    rcases join?_cases hjoin with ⟨rfl, rfl⟩ | ⟨-, -, rfl⟩
    · exact absorbs_self _
    · exact absorbs_real s

end TermSort

namespace LocalSorts

open Node (assignmentsOfList)

variable {leaf : Node → Leaf} {S S' T : Table} {n : Node} {x y : String}

/-! ### What an assignment tells -/

/-- The locals that an assignment assigns. -/
def assigned (leaf : Node → Leaf) : Node → List String
  | .assign targets _ => targets.filterMap fun target => (leaf target).local?
  | .augment target _ _ => (leaf target).local?.toList
  | _ => []

/-- The locals from whose sorts the sort of an assigned value is told. -/
def sources (leaf : Node → Leaf) : Node → List String
  | .assign _ value => consulted leaf value
  | .augment _ _ value => consulted leaf value
  | _ => []

/-- The sort that an assignment tells of a local with a sort of its own. -/
def told (leaf : Node → Leaf) (S : Table) (own : Option TermSort) : Node → Option TermSort
  | .assign _ value => infer leaf S value
  | .augment _ op value => ofBinary op own (infer leaf S value)
  | _ => none

/-- The sort of a local after another one is joined to it. -/
def raise (own : Option TermSort) : Option TermSort → Option TermSort
  | none => own
  | some s => some ((own.map fun earlier => (earlier.join? s).getD earlier).getD s)

/-- Joins what an assignment tells to the sorts of the locals that it assigns. -/
def recordAll (leaf : Node → Leaf) (S : Table) (n : Node) : Table :=
  (assigned leaf n).foldl (fun T name => record T name (told leaf S (S.get? name) n)) S

/-- A pass over assignments. -/
def pass (leaf : Node → Leaf) (S : Table) (ns : List Node) : Table := ns.foldl (recordAll leaf) S

theorem told_congr (h : ∀ y ∈ sources leaf n, S.get? y = T.get? y) (own : Option TermSort) :
    told leaf S own n = told leaf T own n := by
  cases n with
  | assign targets value => exact infer_congr_on value h
  | augment target op value => rw [told, told, infer_congr_on value h]
  | _ => rfl

theorem recordAll_assign (targets : List Node) (value : Node) (S : Table) :
    recordAll leaf S (.assign targets value) =
      targets.foldl (recordTarget leaf (infer leaf S value)) S := by
  have hfold : ∀ (targets : List Node) (T : Table) (sort : Option TermSort),
      (targets.filterMap fun target => (leaf target).local?).foldl
        (fun T name => record T name sort) T = targets.foldl (recordTarget leaf sort) T := by
    intro targets
    induction targets with
    | nil => exact fun _ _ => rfl
    | cons target targets ih =>
      intro T sort
      rw [List.filterMap_cons, List.foldl_cons, ← ih, recordTarget]
      cases leaf target <;> rfl
  exact hfold targets S _

theorem recordAll_augment (target value : Node) (op : BinaryOp) (S : Table) :
    recordAll leaf S (.augment target op value) = join leaf S (.augment target op value) := by
  simp only [recordAll, assigned, join]
  cases leaf target <;> rfl

mutual

/-- A pass over a statement is one over the assignments in it. -/
theorem join_eq_pass : (n : Node) → (S : Table) → join leaf S n = pass leaf S n.assignments
  | .assign targets value, S => (recordAll_assign targets value S).symm
  | .augment target op value, S => (recordAll_augment target value op S).symm
  | .branch _ body orelse, S => by
    rw [Node.assignments, pass, List.foldl_append, ← pass, ← pass, ← joinList_eq_pass body S,
      ← joinElse_eq_pass orelse]
    rfl
  | .block body, S => joinList_eq_pass body S
  | .literal _, _ => rfl
  | .name _, _ => rfl
  | .access _, _ => rfl
  | .unary .., _ => rfl
  | .binary .., _ => rfl
  | .logical .., _ => rfl
  | .compare .., _ => rfl
  | .choice .., _ => rfl
  | .ret _, _ => rfl
  | .unsupported _, _ => rfl

theorem joinList_eq_pass : (ns : List Node) → (S : Table) →
    joinList leaf S ns = pass leaf S (assignmentsOfList ns)
  | [], _ => rfl
  | n :: ns, S => by
    rw [assignmentsOfList, pass, List.foldl_append, ← pass, ← pass, ← join_eq_pass n S,
      ← joinList_eq_pass ns]
    rfl

theorem joinElse_eq_pass : (orelse : Option (List Node)) → (S : Table) →
    joinElse leaf S orelse = pass leaf S (Node.assignmentsOfElse orelse)
  | none, _ => rfl
  | some body, S => joinList_eq_pass body S

end

/-! ### Sorts that are raised -/

/-- A sort holds the values of another one, where there is one. -/
def Holds (a b : Option TermSort) : Prop :=
  ∀ ⦃s⦄, a = some s → ∃ s', b = some s' ∧ s.join? s' = some s'

variable {a b d v : Option TermSort}

theorem Below.holds (h : Below S T) (name : String) : Holds (S.get? name) (T.get? name) :=
  fun _ hs => h hs

theorem Holds.trans (h : Holds a b) (h' : Holds b d) : Holds a d := fun s hs => by
  obtain ⟨s', hs', hle⟩ := h hs
  obtain ⟨s'', hs'', hle'⟩ := h' hs'
  exact ⟨s'', hs'', TermSort.join?_trans hle hle'⟩

theorem get?_record (S : Table) (name : String) (v : Option TermSort) :
    (record S name v).get? x = if x = name then raise (S.get? name) v else S.get? x := by
  cases v with
  | none =>
    simp only [record, raise]
    split_ifs with hx
    · rw [hx]
    · rfl
  | some s =>
    simp only [record, raise]
    cases hname : S.get? name with
    | none => simp only [OrderedMap.get?_insert, Option.map_none, Option.getD_none]
    | some earlier =>
      simp only [Option.map_some, Option.getD_some]
      cases earlier.join? s with
      | some joined => simp only [OrderedMap.get?_insert, Option.getD_some]
      | none =>
        simp only [Option.getD_none]
        split_ifs with hx
        · rw [hx, hname]
        · rfl

theorem holds_raise (a v : Option TermSort) : Holds a (raise a v) := by
  rintro s rfl
  cases v with
  | none => exact ⟨s, rfl, TermSort.join?_self s⟩
  | some s' =>
    refine ⟨_, rfl, ?_⟩
    simp only [Option.map_some, Option.getD_some]
    cases hjoin : s.join? s' with
    | none => exact TermSort.join?_self s
    | some joined => exact TermSort.join?_join? hjoin

/-- What has been joined to a sort adds nothing to a sort that holds the values of the result. -/
theorem raise_absorbs (h : Holds (raise a v) b) : raise b v = b := by
  cases v with
  | none => rfl
  | some s =>
    obtain ⟨t, rfl, hle⟩ := h rfl
    suffices habsorbs : t.Absorbs s by
      rw [raise, Option.map_some, Option.getD_some, habsorbs.getD]
    refine TermSort.Absorbs.mono ?_ hle
    cases a with
    | none => exact TermSort.absorbs_self s
    | some earlier => exact TermSort.absorbs_getD earlier s

theorem raise_none (v : Option TermSort) : raise none v = v := by cases v <;> rfl

theorem raise_self (a : Option TermSort) : raise a a = a := by
  cases a with
  | none => rfl
  | some s => rw [raise, Option.map_some, Option.getD_some, (TermSort.absorbs_self s).getD]

theorem raise_real (v : Option TermSort) : raise (some .real) v = some .real := by
  cases v with
  | none => rfl
  | some s => rw [raise, Option.map_some, Option.getD_some, (TermSort.absorbs_real s).getD]

/-- An operation on a local that nothing is known of tells nothing new of a sort that holds what it
has told. -/
theorem raise_ofBinary_none {op : BinaryOp} (h : Holds (ofBinary op none v) b) :
    raise b (ofBinary op b v) = b := by
  have heither (h : Holds v b) : raise b (either b v) = b := by
    cases v with
    | none => cases b <;> exact raise_self _
    | some s =>
      obtain ⟨t, rfl, hle⟩ := h rfl
      rw [either, TermSort.join?_comm, hle, raise_self]
  cases op with
  | mod | shl | shr => exact raise_absorbs (a := none) (by rwa [raise_none])
  | div =>
    obtain ⟨t, rfl, hle⟩ := h rfl
    rcases TermSort.join?_eq_right.1 hle with rfl | ⟨hint, -⟩
    · exact raise_real _
    · cases hint
  | _ => exact heither (by cases v <;> exact h)

/-- An operation on a local tells nothing new of a sort that holds what it has told. -/
theorem raise_ofBinary_absorbs {op : BinaryOp} (h : Holds (raise a (ofBinary op a v)) b) :
    raise b (ofBinary op b v) = b := by
  cases a with
  | none =>
    rw [raise_none] at h
    exact raise_ofBinary_none h
  | some s =>
    obtain ⟨t, rfl, hle⟩ := (holds_raise (some s) _).trans h rfl
    rcases TermSort.join?_eq_right.1 hle with rfl | ⟨-, rfl⟩
    · exact raise_absorbs h
    · exact raise_real _

/-- **What an assignment has told adds nothing**, as long as the same is told from the locals in its
value. -/
theorem raise_told_absorbs (h : Holds (raise a (told leaf S a n)) b) :
    raise b (told leaf S b n) = b := by
  cases n with
  | assign targets value => exact raise_absorbs h
  | augment target op value => exact raise_ofBinary_absorbs h
  | _ => rfl

theorem get?_recordAll : (recordAll leaf S n).get? x =
    if x ∈ assigned leaf n then raise (S.get? x) (told leaf S (S.get? x) n) else S.get? x := by
  have hfold : ∀ (names : List String) (T : Table) (tell : String → Option TermSort),
      (names.foldl (fun T name => record T name (tell name)) T).get? x =
        if x ∈ names then raise (T.get? x) (tell x) else T.get? x := by
    intro names
    induction names with
    | nil => exact fun _ _ => rfl
    | cons name names ih =>
      intro T tell
      rw [List.foldl_cons, ih, get?_record]
      by_cases hx : x = name
      · subst hx
        have htwice : raise (raise (T.get? x) (tell x)) (tell x) = raise (T.get? x) (tell x) :=
          raise_absorbs fun s hs => ⟨s, hs, TermSort.join?_self s⟩
        simp [htwice]
      · simp [hx]
  exact hfold (assigned leaf n) S fun name => told leaf S (S.get? name) n

/-! ### A pass over assignments -/

theorem below_recordAll (n : Node) (S : Table) : Below S (recordAll leaf S n) := fun x s hs => by
  rw [get?_recordAll]
  split_ifs
  · exact holds_raise _ _ hs
  · exact ⟨s, hs, TermSort.join?_self s⟩

theorem below_pass : ∀ (ns : List Node) (S : Table), Below S (pass leaf S ns)
  | [], S => .refl S
  | n :: ns, S => (below_recordAll n S).trans (below_pass ns _)

theorem pass_append (l r : List Node) (S : Table) :
    pass leaf S (l ++ r) = pass leaf (pass leaf S l) r := List.foldl_append

theorem get?_pass_of_notMem : ∀ {ns : List Node} {S : Table}, (∀ n ∈ ns, x ∉ assigned leaf n) →
    (pass leaf S ns).get? x = S.get? x
  | [], _, _ => rfl
  | n :: ns, S, h => by
    obtain ⟨hn, hns⟩ := List.forall_mem_cons.1 h
    rw [pass, List.foldl_cons, ← pass, get?_pass_of_notMem hns, get?_recordAll, if_neg hn]

theorem raise_eq_iff : raise (T.get? x) v = T.get? x ↔ ∀ s, v = some s → Absorbs T x s := by
  cases v with
  | none => exact iff_of_true rfl fun _ hs => nomatch hs
  | some s =>
    rw [raise]
    constructor
    · rintro h _ ⟨⟩
      cases hx : T.get? x with
      | none => rw [hx] at h; cases h
      | some earlier =>
        rw [hx, Option.map_some, Option.getD_some] at h
        refine ⟨earlier, hx, fun joined hjoin => ?_⟩
        rw [hjoin] at h
        exact Option.some.inj h
    · intro h
      obtain ⟨earlier, hx, habsorbs⟩ := h s rfl
      rw [hx, Option.map_some, Option.getD_some, TermSort.Absorbs.getD habsorbs]

/-! ### Tables that a pass leaves alone -/

/-- The locals that an assignment assigns absorb what it tells. -/
def Settled (leaf : Node → Leaf) (T : Table) (n : Node) : Prop :=
  ∀ name ∈ assigned leaf n, ∀ s, told leaf T (T.get? name) n = some s → Absorbs T name s

/-- Every assignment in a body is settled. -/
def Stable (leaf : Node → Leaf) (T : Table) (body : List Node) : Prop :=
  ∀ n ∈ assignmentsOfList body, Settled leaf T n

theorem record_of_raise (h : raise (T.get? x) v = T.get? x) : record T x v = T := by
  cases v with
  | none => rfl
  | some s =>
    obtain ⟨earlier, hx, habsorbs⟩ := raise_eq_iff.1 h s rfl
    simp only [record, hx]
    split
    · next joined hjoin =>
      obtain rfl := habsorbs joined hjoin
      exact OrderedMap.insert_of_get? hx
    · rfl

theorem recordAll_of_settled (h : Settled leaf T n) : recordAll leaf T n = T := by
  have hfold : ∀ names : List String,
      (∀ name ∈ names, record T name (told leaf T (T.get? name) n) = T) →
        names.foldl (fun S name => record S name (told leaf T (T.get? name) n)) T = T := by
    intro names
    induction names with
    | nil => exact fun _ => rfl
    | cons name names ih =>
      intro h
      obtain ⟨hname, hnames⟩ := List.forall_mem_cons.1 h
      rw [List.foldl_cons, hname, ih hnames]
  exact hfold _ fun name hname => record_of_raise (raise_eq_iff.2 (h name hname))

theorem settled_of_recordAll (hS : Same S T) (h : Same (recordAll leaf S n) T) :
    Settled leaf T n := fun name hname => by
  have hraise := h name
  rw [get?_recordAll, if_pos hname, hS name, told_congr fun y _ => hS y] at hraise
  exact raise_eq_iff.1 hraise

theorem settled_of_pass : ∀ {ns : List Node} {S : Table}, Same S T → Same (pass leaf S ns) T →
    ∀ n ∈ ns, Settled leaf T n
  | [], _, _, _ => fun _ hn => nomatch hn
  | n :: ns, S, hS, h => by
    have hn : Same (recordAll leaf S n) T :=
      hS.of_between (below_recordAll n S) ((below_pass ns _).trans h.below)
    exact List.forall_mem_cons.2 ⟨settled_of_recordAll hS hn, settled_of_pass hn h⟩

theorem pass_of_settled : ∀ {ns : List Node}, (∀ n ∈ ns, Settled leaf T n) → pass leaf T ns = T
  | [], _ => rfl
  | n :: ns, h => by
    obtain ⟨hn, hns⟩ := List.forall_mem_cons.1 h
    rw [pass, List.foldl_cons, recordAll_of_settled hn, ← pass, pass_of_settled hns]

/-- **A further pass changes nothing just where every local absorbs what is told of it.** -/
theorem joinList_eq_self_iff {body : List Node} :
    joinList leaf T body = T ↔ Stable leaf T body := by
  rw [joinList_eq_pass]
  exact ⟨fun h => settled_of_pass (fun _ => rfl) fun name => by rw [h], pass_of_settled⟩

/-! ### Passes over a body -/

/-- The sorts that a number of passes over a body tell. -/
def passes (leaf : Node → Leaf) (body : List Node) : Nat → Table
  | 0 => .empty
  | k + 1 => joinList leaf (passes leaf body k) body

/-! ### Sorts from the places of use -/

theorem get?_insertNew {s : TermSort} (name : String) (s' : TermSort) (h : S.get? x = some s) :
    (S.insertNew name s').get? x = some s := by
  rw [OrderedMap.insertNew]
  split_ifs with hname
  · exact h
  · rw [OrderedMap.get?_insert, if_neg, h]
    rintro rfl
    exact hname (Option.isSome_of_eq_some h)

variable {target : Option TermSort} {s : TermSort}

theorem get?_flowInto (name : String) : ∀ (targets : List Node) {S : Table}, S.get? x = some s →
    (targets.foldl (flowInto leaf name) S).get? x = some s
  | [], _, h => h
  | t :: targets, S, h => by
    refine get?_flowInto name targets ?_
    rw [flowInto]
    split
    · exact get?_insertNew name _ h
    · exact h

mutual

/-- A local keeps the sort that it has before the places of use are looked at. -/
theorem get?_place : (n : Node) → {S : Table} → S.get? x = some s →
    (place leaf target S n).get? x = some s
  | .ret (some value), _, h => by
    rw [place]
    unfold flowOut
    split
    · exact get?_insertNew _ _ h
    · exact h
  | .assign targets value, _, h => by
    rw [place]
    split
    · exact get?_flowInto _ targets h
    · exact h
  | .branch _ body orelse, _, h => get?_placeElse orelse (get?_placeList body h)
  | .block body, _, h => get?_placeList body h
  | .ret none, _, h => h
  | .literal _, _, h => h
  | .name _, _, h => h
  | .access _, _, h => h
  | .augment .., _, h => h
  | .unary .., _, h => h
  | .binary .., _, h => h
  | .logical .., _, h => h
  | .compare .., _, h => h
  | .choice .., _, h => h
  | .unsupported _, _, h => h

theorem get?_placeList : (ns : List Node) → {S : Table} → S.get? x = some s →
    (placeList leaf target S ns).get? x = some s
  | [], _, h => h
  | n :: ns, _, h => get?_placeList ns (get?_place n h)

theorem get?_placeElse : (orelse : Option (List Node)) → {S : Table} → S.get? x = some s →
    (placeElse leaf target S orelse).get? x = some s
  | none, _, h => h
  | some body, _, h => get?_placeList body h

end

/-! ### Sorts that are told in time -/

variable {body l r : List Node}

theorem joinList_eq_of_split (h : assignmentsOfList body = l ++ n :: r) :
    joinList leaf S body = pass leaf (recordAll leaf (pass leaf S l) n) r := by
  rw [joinList_eq_pass, h, pass_append]
  rfl

theorem below_joinList_of_split (h : assignmentsOfList body = l ++ n :: r) :
    Below (recordAll leaf (pass leaf S l) n) (joinList leaf S body) := by
  rw [joinList_eq_of_split h]
  exact below_pass r _

theorem get?_joinList_of_split (h : assignmentsOfList body = l ++ n :: r)
    (hx : ∀ m ∈ n :: r, x ∉ assigned leaf m) :
    (joinList leaf S body).get? x = (pass leaf S l).get? x := by
  obtain ⟨hn, hr⟩ := List.forall_mem_cons.1 hx
  rw [joinList_eq_of_split h, get?_pass_of_notMem hr, get?_recordAll, if_neg hn]

theorem below_ofBody : Below (passes leaf body 2) (ofBody leaf target body) := fun _ s hs =>
  ⟨s, get?_placeList body hs, TermSort.join?_self s⟩

/-- An assignment is settled if the locals in its value have their sorts when the second pass comes
to it: what is then told of its targets is told from the sorts of the whole body. -/
theorem settled_of_timely (hsplit : assignmentsOfList body = l ++ n :: r)
    (h : ∀ y ∈ sources leaf n,
      (pass leaf (passes leaf body 1) l).get? y = (ofBody leaf target body).get? y) :
    Settled leaf (ofBody leaf target body) n := fun name hname => by
  have hholds : Holds _ ((ofBody leaf target body).get? name) :=
    ((below_joinList_of_split hsplit).trans below_ofBody).holds name
  rw [get?_recordAll, if_pos hname, told_congr h] at hholds
  exact raise_eq_iff.1 (raise_told_absorbs hholds)

/-- Every value is told from locals that are assigned before it, or from prompt ones: locals whose
own values are told from prompt locals that are assigned before them. -/
structure InTwoPasses (leaf : Node → Leaf) (prompt : String → Prop) (ns : List Node) : Prop where
  value : ∀ l n r, ns = l ++ n :: r → ∀ y ∈ sources leaf n,
    prompt y ∨ ∀ m ∈ n :: r, y ∉ assigned leaf m
  prompt : ∀ l n r, ns = l ++ n :: r → (∃ name ∈ assigned leaf n, prompt name) →
    ∀ y ∈ sources leaf n, prompt y ∧ ∀ m ∈ n :: r, y ∉ assigned leaf m

variable {prompt : String → Prop}

/-- The second pass changes no sort of a prompt local. -/
theorem InTwoPasses.get?_pass (h : InTwoPasses leaf prompt (assignmentsOfList body)) :
    ∀ {l r : List Node}, assignmentsOfList body = l ++ r → prompt x →
      (pass leaf (passes leaf body 1) l).get? x = (passes leaf body 1).get? x := by
  intro l
  induction l using List.reverseRecOn generalizing x with
  | nil => exact fun _ _ => rfl
  | append_singleton l n ih =>
    intro r hsplit hx
    rw [List.append_assoc, List.singleton_append] at hsplit
    rw [pass_append, pass, List.foldl_cons, List.foldl_nil, get?_recordAll, ih hsplit hx]
    split_ifs with hname
    · -- the sources have had the sorts of the first pass already when it came to the assignment
      have hsources : ∀ y ∈ sources leaf n,
          (pass leaf (passes leaf body 1) l).get? y = (pass leaf .empty l).get? y := fun y hy => by
        obtain ⟨hprompt, hbefore⟩ := h.prompt l n r hsplit ⟨x, hname, hx⟩ y hy
        rw [ih hsplit hprompt, passes, passes, get?_joinList_of_split hsplit hbefore]
      have hholds : Holds _ ((passes leaf body 1).get? x) :=
        (below_joinList_of_split hsplit).holds x
      rw [get?_recordAll, if_pos hname] at hholds
      rw [told_congr hsources]
      exact raise_told_absorbs hholds
    · rfl

/-- In a body of two passes every local in a value has its sort when the second pass comes to it. -/
theorem InTwoPasses.timely (h : InTwoPasses leaf prompt (assignmentsOfList body))
    (hsplit : assignmentsOfList body = l ++ n :: r) {y : String} (hy : y ∈ sources leaf n) :
    (pass leaf (passes leaf body 1) l).get? y = (passes leaf body 2).get? y := by
  show _ = (joinList leaf (passes leaf body 1) body).get? y
  rcases h.value l n r hsplit y hy with hprompt | hbefore
  · rw [h.get?_pass hsplit hprompt, joinList_eq_pass,
      h.get?_pass (List.append_nil _).symm hprompt]
  · rw [get?_joinList_of_split hsplit hbefore]

/-- **What two passes over a body settle.** A further pass changes none of the sorts found for a
body just where every local absorbs what is told of it. What an assignment still changes, it changes
because a local in its value has got its sort too late, after the second pass came to the
assignment: later in that pass, or from the place of its use. So a body of two passes in whose
values no local has its sort from a place alone is stable. -/
theorem ofBody_settles (leaf : Node → Leaf) (target : Option TermSort) (body : List Node) :
    (joinList leaf (ofBody leaf target body) body = ofBody leaf target body ↔
      Stable leaf (ofBody leaf target body) body) ∧
    (∀ l n r, assignmentsOfList body = l ++ n :: r → ¬ Settled leaf (ofBody leaf target body) n →
      ∃ y ∈ sources leaf n,
        (pass leaf (passes leaf body 1) l).get? y ≠ (ofBody leaf target body).get? y) ∧
    ∀ prompt, InTwoPasses leaf prompt (assignmentsOfList body) →
      (∀ n ∈ assignmentsOfList body, ∀ y ∈ sources leaf n,
        (passes leaf body 2).get? y = none → (ofBody leaf target body).get? y = none) →
      joinList leaf (ofBody leaf target body) body = ofBody leaf target body := by
  refine ⟨joinList_eq_self_iff, fun l n r hsplit hn => ?_, fun prompt h hplace => ?_⟩
  · by_contra hlate
    push Not at hlate
    exact hn (settled_of_timely hsplit hlate)
  · rw [joinList_eq_self_iff]
    intro n hn
    obtain ⟨l, r, hsplit⟩ := List.append_of_mem hn
    refine settled_of_timely hsplit fun y hy => ?_
    rw [h.timely hsplit hy]
    cases hsort : (passes leaf body 2).get? y with
    | none => exact (hplace n hn y hy hsort).symm
    | some s => exact (get?_placeList body hsort).symm

/-- Names are locals, and nothing else is known. -/
def namesAsLocals : Node → Leaf
  | .name n => .local n
  | _ => .unknown

/-- A local that takes its sort from one that is assigned later: `a = b; b = 0.5; a`. -/
def forwardBody : List Node :=
  [.assign [.name "a"] (.name "b"), .assign [.name "b"] (.literal (.real (1 / 2))),
    .ret (some (.name "a"))]

theorem forward_stable : joinList namesAsLocals (ofBody namesAsLocals (some .int) forwardBody)
    forwardBody = ofBody namesAsLocals (some .int) forwardBody := by
  have hsplit {l r : List Node} {n : Node} (h : assignmentsOfList forwardBody = l ++ n :: r) :
      n = .assign [.name "a"] (.name "b") ∨
        n = .assign [.name "b"] (.literal (.real (1 / 2))) := by
    have hn : n ∈ assignmentsOfList forwardBody := h ▸ List.mem_append_right l List.mem_cons_self
    simpa [assignmentsOfList, forwardBody, Node.assignments] using hn
  refine (ofBody_settles _ _ _).2.2 (· = "b") ⟨fun l n r h y hy => ?_, fun l n r h hn y hy => ?_⟩ ?_
  · rcases hsplit h with rfl | rfl
    · exact .inl (List.mem_singleton.1 hy)
    · cases hy
  · rcases hsplit h with rfl | rfl
    · simp [assigned, namesAsLocals, Leaf.local?] at hn
    · cases hy
  · decide +kernel

/-- A local that takes its sort from a local that is assigned later, which takes its own likewise:
`c = 2; c = b; b = a; a = 0.5; c`. -/
def chainedBody : List Node :=
  [.assign [.name "c"] (.literal (.int ⟨2, by decide, by decide⟩)), .assign [.name "c"] (.name "b"),
    .assign [.name "b"] (.name "a"), .assign [.name "a"] (.literal (.real (1 / 2))),
    .ret (some (.name "c"))]

theorem chained_unstable : ¬ ∀ (leaf : Node → Leaf) (target : Option TermSort) (body : List Node),
    joinList leaf (ofBody leaf target body) body = ofBody leaf target body := fun h => by
  have hc := congrArg (fun T : Table => T.get? "c") (h namesAsLocals none chainedBody)
  revert hc
  decide +kernel

end LocalSorts

end HybridStep
