import HybridStep.Proofs.Encoding.Errors
import HybridStep.Proofs.Encoding.Locality
import HybridStep.Proofs.Encoding.Sorts

/-! # Narrowing

A body fails to be encoded because of a narrowing only where a real is put into a name with an
integer sort. The sorts of the names are settled before the body is encoded, and with them it is
settled what narrows: a name is outgrown if its sort is an integer and some path of the body comes
to a statement that puts a real into it. A body fails on such names only, and never is encoded where
there are any. No local is outgrown if a further pass of the inference would change no sort. -/

namespace HybridStep

/-- The value that an assignment puts into its targets. -/
def Node.put? : Node → Option Node
  | assign _ value => some value
  | augment _ _ value => some value
  | _ => none

namespace Context

/-! ### What is put into names -/

/-- The names into which a statement puts a value, each with the sort that is told of the value. -/
def assigned (c : Context) : Node → List (VarKey × Option TermSort)
  | .assign targets value => (targets.filterMap c.key?).map fun key => (key, c.sortOf value)
  | .augment target op value => (c.key? target).toList.map fun key =>
    (key, LocalSorts.ofBinary op (some (c.sortOfKey key)) (c.sortOf value))
  | .ret (some value) => c.target.toList.map fun target => (.port target, c.sortOf value)
  | _ => []

/-- The sort of a name is an integer, and a statement of the flow puts a real into it. -/
def OutgrownIn (c : Context) (fl : Flow) (key : VarKey) : Prop :=
  c.sortOfKey key = .int ∧ ∃ n ∈ fl.statements, (key, some .real) ∈ c.assigned n

variable {c : Context} {entry : Entry} {count : VarKey → Nat} {key : VarKey}

/-- An equation narrows just where a real meets the handle of an integer. -/
theorem narrowing_of_equate {handle : Term} {value : Operand} {name : String}
    (h : c.equate handle key value = .error (.narrowing name)) :
    handle.sort = .int ∧ (∃ t, value = .term t ∧ t.sort = .real) ∧ c.keyName key = name := by
  have hbind : c.bind handle key value = .error (.narrowing name) :=
    (Attempt.bind_error.1 h).resolve_right fun ⟨_, _, h⟩ => unnarrowed_checked _ name h
  cases value with
  | tag tag => exact absurd hbind (unnarrowed_tagOfSort _ _ name)
  | opaqueText text => cases hbind
  | term t =>
    simp only [bind] at hbind
    split at hbind
    · exact absurd hbind (unnarrowed_checked _ name)
    · next hhandle hvalue =>
      cases hbind
      exact ⟨hhandle, ⟨t, rfl, hvalue⟩, rfl⟩
    · cases hbind

theorem not_int_of_equate {handle t equation : Term}
    (h : c.equate handle key (.term t) = .ok equation) (ht : t.sort = .real) :
    handle.sort ≠ .int := by
  intro hhandle
  obtain ⟨value, hvalue, -⟩ := Attempt.bind_ok.1 h
  simp only [bind, hhandle, ht] at hvalue
  cases hvalue

theorem narrowing_of_equateAll {value : Operand} {name : String} :
    ∀ {handles : List (VarKey × Term)}, c.equateAll value handles = .error (.narrowing name) →
      ∃ kh ∈ handles, c.equate kh.2 kh.1 value = .error (.narrowing name)
  | [], h => nomatch h
  | (key, handle) :: rest, h => by
    obtain hfirst | ⟨first, -, h⟩ := Attempt.bind_error.1 h
    · exact ⟨_, List.mem_cons_self, hfirst⟩
    · obtain ⟨kh, hkh, hequate⟩ := narrowing_of_equateAll (Attempt.bind_pure_error.1 h)
      exact ⟨kh, List.mem_cons_of_mem _ hkh, hequate⟩

theorem equate_of_equateAll {value : Operand} : ∀ {handles : List (VarKey × Term)} {ts : List Term},
    c.equateAll value handles = .ok ts → ∀ kh ∈ handles, ∃ t, c.equate kh.2 kh.1 value = .ok t
  | [], _, _, kh, hkh => nomatch hkh
  | (key, handle) :: rest, ts, h, kh, hkh => by
    obtain ⟨first, hfirst, h⟩ := Attempt.bind_ok.1 h
    obtain ⟨others, hothers, -⟩ := Attempt.bind_ok.1 h
    rcases List.mem_cons.1 hkh with rfl | hkh
    · exact ⟨first, hfirst⟩
    · exact equate_of_equateAll hothers kh hkh

theorem keyed_ok {n : Node} : c.keyed n = .ok key ↔ c.key? n = some key := by
  unfold keyed
  split <;> simp_all

/-- The handle that a target makes is of the sort of the name that the target is. -/
theorem made_ok {target : Node} {handle : Term}
    (h : (c.asEncoded entry count).made target = .ok (key, handle)) :
    c.key? target = some key ∧ handle.sort = c.sortOfKey key := by
  obtain ⟨key', hkey, h⟩ := Attempt.bind_ok.1 h
  obtain ⟨handle', hhandle, h⟩ := Attempt.bind_ok.1 h
  cases h
  exact ⟨keyed_ok.1 hkey, sort_of_handle hhandle⟩

/-- The handles of an assignment are those of the names of its targets, and of their sorts. -/
theorem madeAll_ok : ∀ {targets : List Node} {handles : List (VarKey × Term)},
    madeAll (c.asEncoded entry count) targets = .ok handles →
      handles.map Prod.fst = targets.filterMap c.key? ∧
        ∀ kh ∈ handles, kh.2.sort = c.sortOfKey kh.1
  | [], handles, h => by
    cases h
    exact ⟨rfl, List.forall_mem_nil _⟩
  | target :: targets, handles, h => by
    obtain ⟨⟨key, handle⟩, hmade, h⟩ := Attempt.bind_ok.1 h
    obtain ⟨others, hothers, h⟩ := Attempt.bind_ok.1 h
    cases h
    obtain ⟨hkey, hsort⟩ := made_ok hmade
    obtain ⟨hkeys, hsorts⟩ := madeAll_ok hothers
    refine ⟨?_, List.forall_mem_cons.2 ⟨hsort, hsorts⟩⟩
    rw [List.map_cons, hkeys, List.filterMap_cons, hkey]

/-! ### Statements -/

theorem mem_assigned_assign {targets : List Node} {value : Node} {sort : Option TermSort} :
    (key, sort) ∈ c.assigned (.assign targets value) ↔
      key ∈ targets.filterMap c.key? ∧ sort = c.sortOf value := by
  simp only [assigned, List.mem_map, Prod.mk.injEq]
  exact ⟨fun ⟨_, hkey, he, hs⟩ => ⟨he ▸ hkey, hs.symm⟩, fun ⟨hkey, hs⟩ => ⟨key, hkey, rfl, hs.symm⟩⟩

theorem mem_assigned_augment {target value : Node} {op : BinaryOp} {sort : Option TermSort} :
    (key, sort) ∈ c.assigned (.augment target op value) ↔ c.key? target = some key ∧
      sort = LocalSorts.ofBinary op (some (c.sortOfKey key)) (c.sortOf value) := by
  simp only [assigned, List.mem_map, Option.mem_toList, Prod.mk.injEq]
  constructor
  · rintro ⟨key, hkey, rfl, rfl⟩
    exact ⟨hkey, rfl⟩
  · rintro ⟨hkey, rfl⟩
    exact ⟨key, hkey, rfl, rfl⟩

theorem mem_assigned_ret {value : Node} {sort : Option TermSort} :
    (key, sort) ∈ c.assigned (.ret (some value)) ↔
      ∃ target, c.target = some target ∧ key = .port target ∧ sort = c.sortOf value := by
  simp only [assigned, List.mem_map, Option.mem_toList, Prod.mk.injEq]
  exact exists_congr fun target => and_congr_right fun _ => and_congr eq_comm eq_comm

/-- The value of an augmented assignment is of the sort that is told of it. -/
theorem sort_of_augment {target value : Node} {op : BinaryOp} {current operand combined : Term}
    (hkey : c.key? target = some key)
    (hcurrent : (c.asEncoded entry count).held target = .ok current)
    (hoperand : plainTerm (c.asEncoded entry count).leaf none value = .ok operand)
    (h : encodeBinary op current operand = .ok combined) :
    LocalSorts.ofBinary op (some (c.sortOfKey key)) (c.sortOf value) = some combined.sort := by
  obtain ⟨key', hkey', hcurrent⟩ := Attempt.bind_ok.1 hcurrent
  obtain rfl := Option.some.inj (hkey.symm.trans (keyed_ok.1 hkey'))
  obtain ⟨o, ho, hoperand⟩ := Attempt.bind_ok.1 hoperand
  refine told_binary (.inl ?_) ((told_plain value ho).toTerm hoperand) h
  rw [sort_of_handle hcurrent]

/-- A statement narrows just where it puts a real into an integer. -/
theorem narrowing_of_statement {n : Node} {name : String}
    (h : plainStatement c (c.asEncoded entry count) n = .error (.narrowing name)) :
    ∃ key, c.sortOfKey key = .int ∧ (key, some .real) ∈ c.assigned n ∧ c.keyName key = name := by
  cases n with
  | assign targets value =>
    obtain ⟨handles, hhandles, h⟩ := (c.unnarrowed_madeAll entry count targets).of_bind h
    obtain ⟨o, ho, h⟩ :=
      (unnarrowed_plain (c.unnarrowed_leaf entry count) value _).of_bind h
    obtain ⟨hkeys, hsorts⟩ := madeAll_ok hhandles
    have hequate : c.equateAll o handles = .error (.narrowing name) := by
      cases o with
      | opaqueText => cases h
      | term | tag => exact h
    obtain ⟨⟨key, handle⟩, hkh, hequate⟩ := narrowing_of_equateAll hequate
    obtain ⟨hint, ⟨t, rfl, ht⟩, hname⟩ := narrowing_of_equate hequate
    refine ⟨key, (hsorts _ hkh).symm.trans hint, mem_assigned_assign.2 ⟨?_, ?_⟩, hname⟩
    · rw [← hkeys]
      exact List.mem_map_of_mem hkh
    · rw [(told_plain value ho).of_isNumeric (by rw [ht]; rfl), ht]
  | augment target op value =>
    obtain ⟨current, hcurrent, h⟩ := (c.unnarrowed_held entry count target).of_bind h
    obtain ⟨operand, hoperand, h⟩ :=
      (unnarrowed_plainTerm (c.unnarrowed_leaf entry count) none value).of_bind h
    obtain ⟨combined, hcombined, h⟩ := (unnarrowed_binary op current operand).of_bind h
    obtain ⟨⟨key, handle⟩, hmade, h⟩ := (c.unnarrowed_made entry count target).of_bind h
    obtain ⟨hint, ⟨t, ht, hreal⟩, hname⟩ := narrowing_of_equate (Attempt.bind_pure_error.1 h)
    cases ht
    obtain ⟨hkey, hsort⟩ := made_ok hmade
    refine ⟨key, hsort.symm.trans hint, mem_assigned_augment.2 ⟨hkey, ?_⟩, hname⟩
    rw [sort_of_augment hkey hcurrent hoperand hcombined, hreal]
  | _ => cases h

/-- Where a statement is encoded, it puts no real into an integer. -/
theorem not_int_of_statement {n : Node} {ts : List Term}
    (h : plainStatement c (c.asEncoded entry count) n = .ok ts)
    (hkey : (key, some .real) ∈ c.assigned n) : c.sortOfKey key ≠ .int := by
  cases n with
  | assign targets value =>
    obtain ⟨hkey, hsort⟩ := mem_assigned_assign.1 hkey
    obtain ⟨handles, hhandles, h⟩ := Attempt.bind_ok.1 h
    obtain ⟨o, ho, h⟩ := Attempt.bind_ok.1 h
    obtain ⟨hkeys, hsorts⟩ := madeAll_ok hhandles
    have htold : o.Told (some .real) := hsort ▸ told_plain value ho
    cases o with
    | opaqueText | tag => cases htold
    | term t =>
      rw [← hkeys] at hkey
      obtain ⟨⟨key, handle⟩, hkh, rfl⟩ := List.mem_map.1 hkey
      obtain ⟨equation, hequate⟩ := equate_of_equateAll h _ hkh
      rw [← hsorts _ hkh]
      exact not_int_of_equate hequate htold.sort_eq
  | augment target op value =>
    obtain ⟨hkey, hsort⟩ := mem_assigned_augment.1 hkey
    obtain ⟨current, hcurrent, h⟩ := Attempt.bind_ok.1 h
    obtain ⟨operand, hoperand, h⟩ := Attempt.bind_ok.1 h
    obtain ⟨combined, hcombined, h⟩ := Attempt.bind_ok.1 h
    obtain ⟨⟨key', handle⟩, hmade, h⟩ := Attempt.bind_ok.1 h
    obtain ⟨equation, hequate, -⟩ := Attempt.bind_ok.1 h
    obtain ⟨hkey', hhandle⟩ := made_ok hmade
    obtain rfl := Option.some.inj (hkey.symm.trans hkey')
    rw [sort_of_augment hkey hcurrent hoperand hcombined] at hsort
    rw [← hhandle]
    exact not_int_of_equate hequate (Option.some.inj hsort).symm
  | ret => cases h
  | _ => cases hkey

/-! ### Returns -/

theorem narrowing_of_ret {value : Option Node} {name : String}
    (h : plainRet c (c.asEncoded entry count) value = .error (.narrowing name)) :
    ∃ key, c.sortOfKey key = .int ∧ (key, some .real) ∈ c.assigned (.ret value) ∧
      c.keyName key = name := by
  obtain ⟨closed, -, h⟩ := (c.unnarrowed_plainClosing entry count _).of_bind h
  have h := Attempt.bind_pure_error.1 h
  cases htarget : c.target with
  | none =>
    simp only [plainReturned, htarget] at h
    cases h
  | some target =>
    cases value with
    | none =>
      simp only [plainReturned, htarget] at h
      cases h
    | some value =>
      simp only [plainReturned, htarget] at h
      obtain ⟨handle, hhandle, h⟩ := (unnarrowed_portTerm c.model target .current).of_bind h
      obtain ⟨o, ho, h⟩ := (unnarrowed_plain (c.unnarrowed_leaf entry count) value _).of_bind h
      have hequate : c.equate handle (.port target) o = .error (.narrowing name) := by
        cases o with
        | opaqueText => cases h
        | term | tag => exact Attempt.bind_pure_error.1 h
      obtain ⟨hint, ⟨t, rfl, ht⟩, hname⟩ := narrowing_of_equate hequate
      have hsort : handle.sort = c.sortOfKey (.port target) := SymbolTable.sort_of_portTerm hhandle
      have htold : c.sortOf value = some t.sort :=
        (told_plain value ho).of_isNumeric (by rw [ht]; rfl)
      exact ⟨.port target, hsort.symm.trans hint,
        mem_assigned_ret.2 ⟨target, htarget, rfl, ht ▸ htold.symm⟩, hname⟩

theorem not_int_of_ret {value : Option Node} {ts : List Term}
    (h : plainRet c (c.asEncoded entry count) value = .ok ts)
    (hkey : (key, some .real) ∈ c.assigned (.ret value)) : c.sortOfKey key ≠ .int := by
  cases value with
  | none => cases hkey
  | some value =>
    obtain ⟨target, htarget, rfl, hsort⟩ := mem_assigned_ret.1 hkey
    obtain ⟨closed, -, h⟩ := Attempt.bind_ok.1 h
    obtain ⟨written, h, -⟩ := Attempt.bind_ok.1 h
    simp only [plainReturned, htarget] at h
    obtain ⟨handle, hhandle, h⟩ := Attempt.bind_ok.1 h
    obtain ⟨o, ho, h⟩ := Attempt.bind_ok.1 h
    have htold : o.Told (some .real) := hsort ▸ told_plain value ho
    cases o with
    | opaqueText | tag => cases htold
    | term t =>
      obtain ⟨equation, hequate, -⟩ := Attempt.bind_ok.1 h
      have hhandle : handle.sort = c.sortOfKey (.port target) :=
        SymbolTable.sort_of_portTerm hhandle
      rw [← hhandle]
      exact not_int_of_equate hequate htold.sort_eq

/-! ### Paths -/

/-- What is outgrown in a part of a flow is outgrown in the flow. -/
theorem OutgrownIn.mono {part fl : Flow} (h : c.OutgrownIn part key)
    (hsub : ∀ n ∈ part.statements, n ∈ fl.statements) : c.OutgrownIn fl key := by
  obtain ⟨hint, n, hn, hkey⟩ := h
  exact ⟨hint, n, hsub n hn, hkey⟩

/-- A flow fails because of a narrowing only at a name that is outgrown in it. -/
theorem outgrown_of_narrowing : (fl : Flow) → ∀ {count : VarKey → Nat} {name : String},
    plainTrace c entry fl count = .error (.narrowing name) →
      ∃ key, c.OutgrownIn fl key ∧ c.keyName key = name
  | .done, count, name, h =>
    absurd h ((c.unnarrowed_plainClosing entry count _).map _ name)
  | .step n rest, count, name, h => by
    rcases Attempt.bind_error.1 h with h | ⟨here, -, h⟩
    · obtain ⟨key, hint, hkey, hname⟩ := narrowing_of_statement h
      exact ⟨key, ⟨hint, n, List.mem_cons_self, hkey⟩, hname⟩
    · obtain ⟨key, hkey, hname⟩ := outgrown_of_narrowing rest (Attempt.bind_pure_error.1 h)
      exact ⟨key, hkey.mono fun _ => List.mem_cons_of_mem n, hname⟩
  | .ret value, count, name, h => by
    obtain ⟨key, hint, hkey, hname⟩ := narrowing_of_ret (Attempt.map_error.1 h)
    exact ⟨key, ⟨hint, _, List.mem_cons_self, hkey⟩, hname⟩
  | .fork test whole yes no, count, name, h => by
    obtain ⟨cond, -, h⟩ :=
      (unnarrowed_plainTerm (c.unnarrowed_leaf entry count) (some .bool) test).of_bind h
    split at h
    · cases h
    obtain h | ⟨yes', -, h⟩ := Attempt.bind_error.1 h
    · obtain ⟨key, hkey, hname⟩ := outgrown_of_narrowing yes h
      exact ⟨key, hkey.mono fun _ => List.mem_append_left _, hname⟩
    obtain h | ⟨no', -, h⟩ := Attempt.bind_error.1 h
    · obtain ⟨key, hkey, hname⟩ := outgrown_of_narrowing no h
      exact ⟨key, hkey.mono fun _ => List.mem_append_right _, hname⟩
    obtain ⟨_, -, h⟩ := (unnarrowed_forked cond _ _).of_bind h
    cases h

/-- No name is outgrown in a flow that is encoded. -/
theorem not_outgrown_of_trace : (fl : Flow) → ∀ {count : VarKey → Nat} {tr : Trace},
    plainTrace c entry fl count = .ok tr → ¬ c.OutgrownIn fl key
  | .done, _, _, _, ⟨_, _, hn, _⟩ => nomatch hn
  | .step n rest, count, tr, h, ⟨hint, x, hx, hkey⟩ => by
    obtain ⟨here, hhere, h⟩ := Attempt.bind_ok.1 h
    obtain ⟨there, hthere, -⟩ := Attempt.bind_ok.1 h
    rcases List.mem_cons.1 hx with rfl | hx
    · exact not_int_of_statement hhere hkey hint
    · exact not_outgrown_of_trace rest hthere ⟨hint, x, hx, hkey⟩
  | .ret value, count, tr, h, ⟨hint, x, hx, hkey⟩ => by
    obtain ⟨ends, hends, -⟩ := Attempt.map_ok.1 h
    obtain rfl := List.mem_singleton.1 hx
    exact not_int_of_ret hends hkey hint
  | .fork test whole yes no, count, tr, h, ⟨hint, x, hx, hkey⟩ => by
    obtain ⟨_, _, _, -, hyes, hno, -⟩ := plainTrace_fork_ok h
    rcases List.mem_append.1 hx with hx | hx
    · exact not_outgrown_of_trace yes hyes ⟨hint, x, hx, hkey⟩
    · exact not_outgrown_of_trace no hno ⟨hint, x, hx, hkey⟩

/-! ### Inference that has settled -/

/-- The sort of a name is an integer, and some path of the body comes to a statement that puts a
real into it. -/
def Outgrown (c : Context) (body : List Node) (key : VarKey) : Prop :=
  c.sortOfKey key = .int ∧ ∃ n, Node.Reaches body n ∧ (key, some .real) ∈ c.assigned n

theorem outgrown_iff {body : List Node} : c.Outgrown body key ↔ c.OutgrownIn (.ofBody body) key :=
  and_congr_right fun _ => exists_congr fun _ => and_congr_left fun _ =>
    Flow.mem_statements_ofBody.symm

/-- The inference has settled: a further pass over the body would change no sort, and no value that
is assigned has another sort because of the one that is given to unknown locals. -/
structure SortsSettled (c : Context) (body : List Node) : Prop where
  pass : LocalSorts.Same (LocalSorts.joinList c.leaf c.localSorts body) c.localSorts
  told {n value : Node} : Node.Reaches body n → n.put? = some value →
    LocalSorts.infer c.leaf c.localSorts value = c.sortOf value

theorem leaf_of_key {n : Node} {name : String} (hkey : c.key? n = some (.local name))
    (hstep : some name ≠ c.stepParam) : c.leaf n = .local name := by
  have hnot : c.isStep n = false := by
    cases n with
    | name n =>
      cases hkey
      exact decide_eq_false hstep
    | _ => rfl
  simp [leaf, hnot, hkey]

theorem not_absorbs_real {name : String} (hint : c.sortOfLocal name = .int) :
    ¬ LocalSorts.Absorbs c.localSorts name .real := by
  rintro ⟨earlier, hearlier, habsorbs⟩
  rw [sortOfLocal, hearlier, Option.getD_some] at hint
  subst hint
  cases habsorbs .real rfl

/-- **No local is outgrown once the inference has settled.** -/
theorem SortsSettled.not_outgrown {body : List Node} (h : c.SortsSettled body) {name : String}
    (hstep : some name ≠ c.stepParam) : ¬ c.Outgrown body (.local name) := by
  rintro ⟨hint, n, hn, hkey⟩
  have hkeeps := LocalSorts.keeps_of_reaches h.pass hn
  cases n with
  | assign targets value =>
    obtain ⟨hkey, hsort⟩ := mem_assigned_assign.1 hkey
    obtain ⟨target, htarget, hkey⟩ := List.mem_filterMap.1 hkey
    rw [← h.told hn rfl] at hsort
    exact not_absorbs_real hint (hkeeps.assign htarget (leaf_of_key hkey hstep) hsort.symm)
  | augment target op value =>
    obtain ⟨hkey, hsort⟩ := mem_assigned_augment.1 hkey
    rw [← h.told hn rfl, hint] at hsort
    cases hearlier : c.localSorts.get? name with
    | none =>
      -- a pass would tell something of a local of which nothing is told
      obtain ⟨s, hs⟩ := LocalSorts.ofBinary_none hsort.symm
      obtain ⟨earlier, hsome, -⟩ := hkeeps.augment (leaf_of_key hkey hstep) (hearlier ▸ hs)
      cases hearlier.symm.trans hsome
    | some earlier =>
      have hearlier' : earlier = .int := by
        rw [sortOfKey, sortOfLocal, hearlier, Option.getD_some] at hint
        exact hint
      refine not_absorbs_real hint (hkeeps.augment (leaf_of_key hkey hstep) ?_)
      rw [hearlier, hearlier', ← hsort]
  | ret value =>
    cases value with
    | none => cases hkey
    | some value =>
      obtain ⟨target, -, hport, -⟩ := mem_assigned_ret.1 hkey
      cases hport
  | _ => cases hkey

end Context

/-! ### Updates -/

variable {m : Model} {options : Options} {u : UpdateId} {f : UpdateFunction} {t : SymbolTable}

/-- **What narrows is outgrown.** If an update fails because of a narrowing, then at a name that its
body outgrows, and an update that outgrows a name is never encoded. Where the inference of sorts has
settled, its body outgrows no local but the time step. -/
theorem encodeUpdate_narrowing (ht : Earlier m options (.update u) t) :
    (∀ name t', encodeUpdate m options u f t = .error (.narrowing name) t' →
      ∃ key, (bodyContext m options u f).Outgrown f.body key ∧
        (bodyContext m options u f).keyName key = name) ∧
    (∀ key, (bodyContext m options u f).Outgrown f.body key →
      ∀ r t', encodeUpdate m options u f t ≠ .ok r t') ∧
    ((bodyContext m options u f).SortsSettled f.body → ∀ name,
      (bodyContext m options u f).Outgrown f.body (.local name) → some name = f.stepParam) := by
  have hsettled : (bodyContext m options u f).Settled t.entry { table := t } := ht.tidy.settled
  have hcases := encodeUpdate_cases hsettled
  refine ⟨fun name t' h => ?_, fun key hkey r t' h => ?_, fun hsteady name hkey => ?_⟩
  · cases hbody : (bodyContext m options u f).plainBody t.entry f.body with
    | ok tr =>
      rw [hbody] at hcases
      obtain ⟨t'', ht''⟩ := hcases
      cases h.symm.trans ht''
    | error e =>
      rw [hbody] at hcases
      obtain ⟨t'', ht'', -⟩ := hcases
      cases h.symm.trans ht''
      obtain ⟨key, hkey, hname⟩ := Context.outgrown_of_narrowing _ hbody
      exact ⟨key, Context.outgrown_iff.2 hkey, hname⟩
  · obtain ⟨tr, htr, -⟩ := plainBody_of_encodeUpdate ht.tidy h
    exact Context.not_outgrown_of_trace _ htr (Context.outgrown_iff.1 hkey)
  · by_contra hstep
    exact hsteady.not_outgrown hstep hkey

/-- An update that gives a real to a port with an integer sort. The second pass over its body tells
the sort of `c` from the one of `b`. -/
def roundedDefinition : ModelDefinition where
  resources := [⟨"num", none, .named "integer"⟩]
  entity := .mk "e" [⟨"p", .internal, "num", .number (.int 0)⟩] ["s"] none
    [⟨"u", "s", "p", "|s, dt| \x7b let b = 1; let c = 1; c = b; b = 0.5; c \x7d"⟩] [] []

/-- The port narrows, and no local does. -/
theorem rounded_narrows_port : ∃ m e f t', roundedDefinition.build = .ok (m, e) ∧
    ⟨0⟩ ∈ m.activeUpdates e ∧ UpdateFunction.read (m.update ⟨0⟩).function = .ok f ∧
    encodeUpdate m {} ⟨0⟩ f (.fresh "dt") = .error (.narrowing "p") t' ∧
    (∃ key, (bodyContext m {} ⟨0⟩ f).Outgrown f.body key ∧
      (bodyContext m {} ⟨0⟩ f).keyName key = "p") ∧
    (bodyContext m {} ⟨0⟩ f).SortsSettled f.body ∧
    ∀ name, (bodyContext m {} ⟨0⟩ f).Outgrown f.body (.local name) → some name = f.stepParam := by
  have h : Attempt.succeeds (fun (m, e) => ⟨0⟩ ∈ m.activeUpdates e && Attempt.succeeds (fun f =>
      Stateful.fails (·.narrowed? = some "p") (encodeUpdate m {} ⟨0⟩ f (.fresh "dt")) ∧
      (LocalSorts.joinList (bodyContext m {} ⟨0⟩ f).leaf (bodyContext m {} ⟨0⟩ f).localSorts
        f.body).entries = (bodyContext m {} ⟨0⟩ f).localSorts.entries ∧
      ∀ n ∈ (Flow.ofBody f.body).statements, ∀ value ∈ n.put?,
        LocalSorts.infer (bodyContext m {} ⟨0⟩ f).leaf (bodyContext m {} ⟨0⟩ f).localSorts value =
          (bodyContext m {} ⟨0⟩ f).sortOf value)
      (UpdateFunction.read (m.update ⟨0⟩).function)) roundedDefinition.build := by
    decide +kernel
  obtain ⟨⟨m, e⟩, hbuild, h⟩ := Attempt.exists_of_succeeds h
  rw [Bool.and_eq_true, decide_eq_true_eq] at h
  obtain ⟨hu, h⟩ := h
  obtain ⟨f, hf, h⟩ := Attempt.exists_of_succeeds h
  obtain ⟨hfails, hpass, htold⟩ := of_decide_eq_true h
  obtain ⟨err, t', hr, herr⟩ := Stateful.exists_of_fails hfails
  obtain rfl := EncodingError.narrowed?_eq_some.1 (of_decide_eq_true herr)
  have hsettled : (bodyContext m {} ⟨0⟩ f).SortsSettled f.body :=
    { pass := fun name => by rw [OrderedMap.get?, OrderedMap.get?, hpass]
      told := fun hn hvalue => htold _ (Flow.mem_statements_of_reaches hn) _ hvalue }
  exact ⟨m, e, f, t', hbuild, hu, hf, hr, (encodeUpdate_narrowing .fresh).1 "p" t' hr, hsettled,
    (encodeUpdate_narrowing .fresh).2.2 hsettled⟩

/-- An update whose locals get their sorts from locals that are assigned later: a second pass tells
that `b` is a real, and only a third one would tell it of `c`. -/
def chainedDefinition : ModelDefinition where
  resources := [⟨"num", none, .named "real"⟩]
  entity := .mk "e" [⟨"p", .internal, "num", .number (.int 0)⟩] ["s"] none
    [⟨"u", "s", "p",
      "|s, dt| \x7b let a = 1; let b = 1; let c = 1; c = b; b = a; a = 0.5; c \x7d"⟩] [] []

/-- A local without a declared sort narrows, and nothing else does. -/
theorem chained_narrows_local : ∃ m e u f t', chainedDefinition.build = .ok (m, e) ∧
    u ∈ m.activeUpdates e ∧ UpdateFunction.read (m.update u).function = .ok f ∧
    f.declared.entries = [] ∧
    encodeUpdate m {} u f (.fresh "dt") = .error (.narrowing "c") t' ∧
    ∀ key, (bodyContext m {} u f).Outgrown f.body key ↔ key = .local "c" := by
  have h : Attempt.succeeds (fun (m, e) => ⟨0⟩ ∈ m.activeUpdates e && Attempt.succeeds (fun f =>
      f.declared.entries = [] ∧
      Stateful.fails (·.narrowed? = some "c") (encodeUpdate m {} ⟨0⟩ f (.fresh "dt")) ∧
      (bodyContext m {} ⟨0⟩ f).sortOfKey (.local "c") = .int ∧
      (∃ n ∈ (Flow.ofBody f.body).statements,
        (.local "c", some .real) ∈ (bodyContext m {} ⟨0⟩ f).assigned n) ∧
      ∀ n ∈ (Flow.ofBody f.body).statements, ∀ put ∈ (bodyContext m {} ⟨0⟩ f).assigned n,
        put.2 = some .real → (bodyContext m {} ⟨0⟩ f).sortOfKey put.1 = .int → put.1 = .local "c")
      (UpdateFunction.read (m.update ⟨0⟩).function)) chainedDefinition.build := by
    decide +kernel
  obtain ⟨⟨m, e⟩, hbuild, h⟩ := Attempt.exists_of_succeeds h
  rw [Bool.and_eq_true, decide_eq_true_eq] at h
  obtain ⟨hu, h⟩ := h
  obtain ⟨f, hf, h⟩ := Attempt.exists_of_succeeds h
  obtain ⟨hdeclared, hfails, hint, hreal, honly⟩ := of_decide_eq_true h
  obtain ⟨err, t', hr, herr⟩ := Stateful.exists_of_fails hfails
  obtain rfl := EncodingError.narrowed?_eq_some.1 (of_decide_eq_true herr)
  refine ⟨m, e, ⟨0⟩, f, t', hbuild, hu, hf, hdeclared, hr, fun key => ?_⟩
  rw [Context.outgrown_iff]
  constructor
  · rintro ⟨hsort, n, hn, hkey⟩
    exact honly n hn _ hkey rfl hsort
  · rintro rfl
    exact ⟨hint, hreal⟩

end HybridStep
