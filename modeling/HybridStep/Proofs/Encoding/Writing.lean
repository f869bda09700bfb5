import HybridStep.Proofs.Encoding.Reading

/-! # Meaning of encoded statements

A statement changes a store, and its encoding equates the handles of the new versions with the new
values. So a valuation satisfies the encoding of a statement exactly if the new handles denote what
the statement writes. The same holds for the closing of ports at the end of a path and for a return.
An unknown value is not encoded: then the handles are free. -/

namespace HybridStep.Context

variable {c : Context} {K : Type}

/-! ### Stores -/

/-- Every value of the store, known or not, has the sort of its name. -/
structure SortedStore (c : Context) (st : Store K) : Prop where
  val (key : VarKey) : (st.val key).sort = c.sortOfKey key
  unknown (n : Nat) (key : VarKey) : (st.unknown n key).sort = c.sortOfKey key

theorem SortedStore.set {st : Store K} {key : VarKey} {v : Val K} (h : c.SortedStore st)
    (hv : v.sort = c.sortOfKey key) : c.SortedStore (st.set key v) := by
  refine ⟨fun key' => ?_, h.unknown⟩
  by_cases he : key' = key
  · subst he
    simpa [Store.set] using hv
  · simpa [Store.set, he] using h.val key'

/-- What a write to some names leaves as it was, and that it keeps the sorts. -/
structure Writes (c : Context) (keys : List VarKey) (st st' : Store K) : Prop where
  dt : st'.dt = st.dt
  frame {key : VarKey} : key ∉ keys → st'.val key = st.val key
  sorted : c.SortedStore st → c.SortedStore st'

theorem Writes.refl (st : Store K) : c.Writes [] st st := ⟨rfl, fun _ => rfl, fun h => h⟩

theorem Writes.mono {keys keys' : List VarKey} {st st' : Store K} (h : c.Writes keys st st')
    (hk : keys ⊆ keys') : c.Writes keys' st st' :=
  ⟨h.dt, fun hn => h.frame fun hm => hn (hk hm), h.sorted⟩

variable [Field K]

theorem as?_sort {d : Datum K} {s : TermSort} {v : Val K} (h : d.as? s = some v) : v.sort = s := by
  cases d with
  | val w => exact Val.sort_of_as? h
  | text t => exact Val.sort_of_textAs? h
  | unknown => cases h

theorem put_writes {d : Datum K} : ∀ {keys : List VarKey} {st st' : Store K},
    c.put d keys st = some st' → c.Writes keys st st' ∧
      ∀ key ∈ keys, d.as? (c.sortOfKey key) = some (st'.val key)
  | [], st, st', h => by
    cases h
    exact ⟨.refl st, by simp⟩
  | key :: keys, st, st', h => by
    obtain ⟨v, hv, h⟩ := Option.bind_eq_some_iff.1 h
    obtain ⟨hw, hval⟩ := put_writes h
    refine ⟨⟨hw.dt, fun hn => ?_, fun hs => hw.sorted (hs.set (as?_sort hv))⟩, fun key' hk => ?_⟩
    · simp only [List.mem_cons, not_or] at hn
      rw [hw.frame hn.2]
      simp [Store.set, hn.1]
    · by_cases hin : key' ∈ keys
      · exact hval key' hin
      · obtain rfl : key' = key := (List.mem_cons.1 hk).resolve_right hin
        rw [hw.frame hin]
        simpa [Store.set] using hv

theorem put_some {d : Datum K} : ∀ {keys : List VarKey} (st : Store K),
    (∀ key ∈ keys, ∃ v, d.as? (c.sortOfKey key) = some v) → ∃ st', c.put d keys st = some st'
  | [], st, _ => ⟨st, rfl⟩
  | key :: keys, st, h => by
    obtain ⟨v, hv⟩ := h key List.mem_cons_self
    obtain ⟨st', hst'⟩ := put_some (st.set key v) fun key' hk => h key' (List.mem_cons_of_mem _ hk)
    exact ⟨st', by simp [put, hv, hst']⟩

omit [Field K] in
theorem putUnknown_writes (st : Store K) (keys : List VarKey) :
    c.Writes keys st (putUnknown st keys) := by
  have hfold : ∀ (keys : List VarKey) (s : Store K), s.dt = st.dt → s.unknown = st.unknown →
      (keys.foldl (fun s key => s.set key (st.unknown 0 key)) s).dt = st.dt ∧
      (keys.foldl (fun s key => s.set key (st.unknown 0 key)) s).unknown = st.unknown ∧
      (∀ key ∉ keys, (keys.foldl (fun s key => s.set key (st.unknown 0 key)) s).val key =
        s.val key) ∧
      (c.SortedStore st → c.SortedStore s →
        c.SortedStore (keys.foldl (fun s key => s.set key (st.unknown 0 key)) s)) := by
    intro keys
    induction keys with
    | nil => exact fun s hd hu => ⟨hd, hu, fun _ _ => rfl, fun _ h => h⟩
    | cons key keys ih =>
      intro s hd hu
      obtain ⟨h1, h2, h3, h4⟩ := ih (s.set key (st.unknown 0 key)) hd hu
      refine ⟨h1, h2, fun key' hn => ?_, fun hst hs => h4 hst (hs.set (hst.unknown 0 key))⟩
      simp only [List.mem_cons, not_or] at hn
      rw [List.foldl_cons, h3 key' hn.2]
      simp [Store.set, hn.1]
  obtain ⟨h1, h2, h3, h4⟩ := hfold keys st rfl rfl
  refine ⟨h1, fun hn => h3 _ hn, fun hs => ⟨(h4 hs hs).val, fun n key => ?_⟩⟩
  simpa [putUnknown, Store.skip, h2] using hs.unknown (n + 1) key

theorem store_unknown [LinearOrder K] {A : Arith K} {st : Store K} {keys : List VarKey}
    {value : Node} (h : c.eval A st (keys.head?.map c.sortOfKey) value = some .unknown) :
    c.store A st keys value = some (putUnknown st keys) := by
  rw [store, h]
  rfl

theorem store_known [LinearOrder K] {A : Arith K} {st : Store K} {keys : List VarKey}
    {value : Node} {d : Datum K} (h : c.eval A st (keys.head?.map c.sortOfKey) value = some d)
    (hd : d ≠ .unknown) : c.store A st keys value = c.put d keys st := by
  rw [store, h]
  cases d with
  | unknown => exact absurd rfl hd
  | val | text => rfl

theorem store_writes [LinearOrder K] {A : Arith K} {st st' : Store K} {keys : List VarKey}
    {value : Node} (h : c.store A st keys value = some st') : c.Writes keys st st' := by
  obtain ⟨d, -, h⟩ := Option.bind_eq_some_iff.1 h
  cases d with
  | unknown =>
    cases h
    exact putUnknown_writes st keys
  | val v => exact (put_writes h).1
  | text t => exact (put_writes h).1

theorem key?_of_target? {n : Node} {key : VarKey} (h : c.target? n = some key) :
    c.key? n = some key := by
  unfold target? at h
  split at h
  · cases h
  · exact h

theorem mapM_key? : ∀ {targets : List Node} {keys : List VarKey},
    targets.mapM c.key? = some keys → targets.filterMap c.key? = keys
  | [], keys, h => by
    cases h
    rfl
  | n :: ns, keys, h => by
    rw [List.mapM_cons] at h
    obtain ⟨key, hk, h⟩ := Option.bind_eq_some_iff.1 h
    obtain ⟨others, ho, h⟩ := Option.bind_eq_some_iff.1 h
    cases h
    rw [List.filterMap_cons_some hk, mapM_key? ho]

theorem mapM_key?_of_target? : ∀ {targets : List Node} {keys : List VarKey},
    targets.mapM c.target? = some keys → targets.mapM c.key? = some keys
  | [], keys, h => h
  | n :: ns, keys, h => by
    rw [List.mapM_cons] at h
    obtain ⟨key, hk, h⟩ := Option.bind_eq_some_iff.1 h
    obtain ⟨others, ho, h⟩ := Option.bind_eq_some_iff.1 h
    cases h
    rw [List.mapM_cons, key?_of_target? hk, mapM_key?_of_target? ho]
    rfl

/-- Targets that do not name the time step are those names that they are. -/
theorem mapM_target? : ∀ {targets : List Node}, (∀ n ∈ targets, c.isStep n = false) →
    targets.mapM c.target? = targets.mapM c.key?
  | [], _ => rfl
  | n :: ns, h => by
    rw [List.forall_mem_cons] at h
    have hn : c.target? n = c.key? n := by
      rw [target?, h.1]
      rfl
    rw [List.mapM_cons, List.mapM_cons, hn, mapM_target? h.2]

/-- A statement only changes what it writes. -/
theorem act_writes [LinearOrder K] {A : Arith K} {st st' : Store K} {n : Node}
    (h : c.act A st n = some st') : c.Writes (n.writes c.key?) st st' := by
  cases n <;> try (cases h; exact (Writes.refl st).mono (List.nil_subset _))
  case assign targets value =>
    obtain ⟨keys, hk, h⟩ := Option.bind_eq_some_iff.1 h
    rw [Node.writes, mapM_key? (mapM_key?_of_target? hk)]
    exact store_writes h
  case augment target op value =>
    obtain ⟨key, hk, h⟩ := Option.bind_eq_some_iff.1 h
    obtain ⟨d, -, h⟩ := Option.bind_eq_some_iff.1 h
    obtain ⟨v, -, h⟩ := Option.bind_eq_some_iff.1 h
    obtain ⟨w, -, h⟩ := Option.bind_eq_some_iff.1 h
    rw [Node.writes, key?_of_target? hk]
    exact (put_writes h).1

/-! ### Equations -/

section

variable [LinearOrder K] {A : Arith K} {σ : Valuation K} {o : Operand} {d : Datum K}

theorem equate_means {handle t : Term} {key : VarKey} (h : c.equate handle key o = .ok t)
    (ho : o.Means A σ d) :
    ∃ v, d.as? handle.sort = some v ∧ (t.Holds A σ ↔ handle.val A σ = v) := by
  obtain ⟨u, hu, h⟩ := Attempt.bind_ok.1 h
  have ht := checked_eq_ok.1 h
  have hsort : handle.sort = u.sort := by
    unfold Term.mkEq at ht
    split at ht
    · next hs => exact hs
    · cases ht
  have hval : ∀ v, u.Denotes A σ v → (t.Holds A σ ↔ handle.val A σ = v) := fun v hv => by
    rw [Term.holds_mkEq ht, hv.1]
  cases o with
  | opaqueText => cases hu
  | tag tag =>
    obtain ⟨v, hv, hd⟩ := tagOfSort_denotes (A := A) (σ := σ) hu
    cases d with
    | text s =>
      obtain rfl : tag = s := ho
      exact ⟨v, hv, hval v hd⟩
    | val | unknown => exact ho.elim
  | term x =>
    obtain ⟨v, rfl, hv⟩ := ho.of_toTerm rfl
    simp only [Datum.as?]
    by_cases hwide : handle.sort = .real ∧ x.sort = .int
    · obtain ⟨n, rfl⟩ := Val.sort_eq_int.1 (hv.2.trans hwide.2)
      simp only [bind, hwide.1, hwide.2] at hu
      have hd := Term.denotes_mkToReal hv (checked_eq_ok.1 hu)
      exact ⟨.real n, by rw [hwide.1]; rfl, hval _ hd⟩
    · have hxu : x = u := by
        simp only [bind] at hu
        split at hu
        · next h1 h2 => exact absurd ⟨h1, h2⟩ hwide
        · cases hu
        · exact Except.ok.inj hu
      subst hxu
      exact ⟨v, Val.as?_of_sort (hv.2.trans hsort.symm), hval v hv⟩

end

/-! ### Statements -/

section

variable [LinearOrder K] {A : Arith K} {σ : Valuation K} {s : Scope} {p p' : Progress}
variable {T : SymbolTable} {W : OrderedSet PortId} {st : Store K}

/-- The handles of the names of a body have the sorts of the names. -/
def SortedTable (c : Context) (T : SymbolTable) : Prop :=
  ∀ ⦃key : VarKey⦄ ⦃v : Version⦄ ⦃t : Term⦄, T.get? (c.symbolKey key) v = some t →
    t.sort = c.sortOfKey key

/-- The handles that one more write of some names makes denote the values of a store. -/
def Records (c : Context) (A : Arith K) (σ : Valuation K) (T : SymbolTable)
    (count : VarKey → Nat) (keys : List VarKey) (st : Store K) : Prop :=
  ∀ key ∈ keys, ∀ t, T.get? (c.symbolKey key) (.index (count key + 1)) = some t →
    t.Denotes A σ (st.val key)

/-- An encoding notes the text of every operand that it passes through. -/
def Passes (x : Encoder Operand) : Prop :=
  ∀ ⦃p text p'⦄, x p = .ok (.opaqueText text) p' → p'.passed.toList ≠ []

omit [Field K] [LinearOrder K] in
theorem Passes.bind {α : Type} {x : Encoder α} {f : α → Encoder Operand} (h : ∀ a, Passes (f a)) :
    Passes (x >>= f) := fun _ _ _ hx => by
  obtain ⟨a, _, -, hf⟩ := Stateful.bind_ok.1 hx
  exact h a hf

omit [Field K] [LinearOrder K] in
theorem Passes.term (x : Encoder Term) : Passes (Operand.term <$> x) := fun _ _ _ hx => by
  obtain ⟨_, _, h⟩ := Stateful.map_ok.1 hx
  cases h

omit [Field K] [LinearOrder K] in
theorem Passes.throw (e : EncodingError) : Passes (throw e) :=
  fun _ _ _ hx => (Stateful.throw_ok hx).elim

omit [Field K] [LinearOrder K] in
theorem passes_literal {hint : Option TermSort} (l : Literal) :
    Passes (Encoder.lift (literal hint l)) := fun _ _ _ hx => by
  obtain ⟨h, -⟩ := Encoder.lift_ok.1 hx
  cases l with
  | text tag =>
    simp only [literal] at h
    split at h
    · obtain ⟨_, _, h⟩ := Attempt.map_ok.1 h
      cases h
    · cases h
  | int | real | bool => cases h

omit [Field K] [LinearOrder K] in
theorem passes_expr {hint : Option TermSort} : (n : Node) → Passes (c.expr s hint n)
  | .unary .identity operand => passes_expr operand
  | .unsupported text => fun p _ p' h => by
    obtain ⟨_, q, hq, h⟩ := Stateful.bind_ok.1 h
    obtain ⟨-, rfl⟩ := Stateful.pure_ok.1 h
    obtain rfl := Encoder.pass_ok.1 hq
    have hm : text ∈ p.passed.insert text := OrderedSet.mem_insert.2 (.inr rfl)
    exact List.ne_nil_of_mem hm
  | .literal value => passes_literal value
  | .name _ => .term _
  | .access _ => .term _
  | .unary .not _ => .bind fun _ => .bind fun _ => .term _
  | .unary .neg _ => .bind fun _ => .bind fun _ => .term _
  | .binary .. => .bind fun _ => .bind fun _ => .bind fun _ => .bind fun _ => .term _
  | .logical .. => .bind fun _ => .term _
  | .compare .. => .bind fun _ => .bind fun _ => .term _
  | .choice .. => .bind fun _ => .bind fun _ => .bind fun _ => .bind fun _ => .term _
  | .assign .. => .throw _
  | .augment .. => .throw _
  | .branch .. => .throw _
  | .ret _ => .throw _
  | .block _ => .throw _

theorem targetHandles_ok : ∀ {targets : List Node} {p p' : Progress} {hs : List (VarKey × Term)},
    c.targetHandles s targets p = .ok hs p' → targets.mapM c.key? = some (hs.map Prod.fst) ∧
      ∀ kh ∈ hs, p'.table.get? (c.symbolKey kh.1) (.index (s.previous kh.1 + 1)) = some kh.2
  | [], p, p', hs, h => by
    obtain ⟨rfl, -⟩ := Stateful.pure_ok.1 h
    exact ⟨rfl, by simp⟩
  | n :: ns, p, p', hs, h => by
    obtain ⟨key, q, hkey, h⟩ := Stateful.bind_ok.1 h
    obtain ⟨handle, q1, hhandle, h⟩ := Stateful.bind_ok.1 h
    obtain ⟨others, q2, hothers, h⟩ := Stateful.bind_ok.1 h
    obtain ⟨rfl, rfl⟩ := Stateful.pure_ok.1 h
    obtain ⟨hm, hget⟩ := targetHandles_ok hothers
    refine ⟨by simp [List.mapM_cons, (keyOf_ok hkey).1, hm], ?_⟩
    intro kh hkh
    rcases List.mem_cons.1 hkh with rfl | hkh
    · exact (adds_targetHandles s ns hothers).table.kept (writeKey_ok hhandle)
    · exact hget kh hkh

theorem equateAll_means {o : Operand} {d : Datum K} (ho : o.Means A σ d) :
    ∀ {hs : List (VarKey × Term)} {ts : List Term}, c.equateAll o hs = .ok ts →
      (∀ kh ∈ hs, kh.2.sort = c.sortOfKey kh.1) →
      (∀ kh ∈ hs, ∃ v, d.as? (c.sortOfKey kh.1) = some v) ∧
        ((∀ t ∈ ts, t.Holds A σ) ↔
          ∀ kh ∈ hs, ∀ v, d.as? (c.sortOfKey kh.1) = some v → kh.2.val A σ = v)
  | [], ts, h, _ => by
    cases h
    simp
  | (key, handle) :: rest, ts, h, hs => by
    obtain ⟨first, hfirst, h⟩ := Attempt.bind_ok.1 h
    obtain ⟨others, hothers, h⟩ := Attempt.bind_ok.1 h
    cases h
    obtain ⟨v, hv, hhold⟩ := equate_means hfirst ho
    rw [hs _ List.mem_cons_self] at hv
    obtain ⟨hsome, hiff⟩ := equateAll_means ho hothers fun kh hk =>
      hs kh (List.mem_cons_of_mem _ hk)
    refine ⟨?_, ?_⟩
    · intro kh hk
      rcases List.mem_cons.1 hk with rfl | hk
      · exact ⟨v, hv⟩
      · exact hsome kh hk
    · rw [List.forall_mem_cons, List.forall_mem_cons, hiff, hhold]
      simp [hv]

/-- A valuation satisfies the encoding of an assignment if it records the values that are assigned,
and only then if nothing is passed through. -/
theorem assign_means [IsStrictOrderedRing K] (hT : c.SortedTable T) {targets : List Node}
    {value : Node} {cs : List Term} (h : c.statement s (.assign targets value) p = .ok cs p')
    (hin : Inside T W p') (hr : c.Reads A σ T W s.previous st)
    (hstep : ∀ n ∈ targets, c.isStep n = false) :
    ∃ st', c.act A st (.assign targets value) = some st' ∧
      (c.Records A σ T s.previous (targets.filterMap c.key?) st' → ∀ t ∈ cs, t.Holds A σ) ∧
      (p'.passed.toList = [] → (∀ t ∈ cs, t.Holds A σ) →
        c.Records A σ T s.previous (targets.filterMap c.key?) st') := by
  obtain ⟨hs, q, o, hhs, ho, hcs⟩ := assign_ok h
  obtain ⟨hkeys, hget⟩ := targetHandles_ok hhs
  have hgrew := adds_expr s value _ ho
  have hgetT : ∀ kh ∈ hs, T.get? (c.symbolKey kh.1) (.index (s.previous kh.1 + 1)) = some kh.2 :=
    fun kh hk => hin.handles.kept (hgrew.table.kept (hget kh hk))
  have hhint : hs.head?.map (fun kh => kh.2.sort) = (hs.map Prod.fst).head?.map c.sortOfKey := by
    cases hs with
    | nil => rfl
    | cons kh rest => simp [hT (hgetT kh List.mem_cons_self)]
  rw [hhint] at ho
  obtain ⟨d, hd, hm⟩ := expr_means hr value ho hin
  have hact : c.act A st (.assign targets value) = c.store A st (hs.map Prod.fst) value := by
    rw [act, mapM_target? hstep, hkeys]
    rfl
  rw [mapM_key? hkeys]
  rcases hcs with ⟨⟨text, rfl⟩, rfl⟩ | ⟨htext, hok⟩
  · obtain rfl := hm.eq_unknown
    exact ⟨_, hact.trans (store_unknown hd), fun _ _ ht => absurd ht List.not_mem_nil,
      fun hp => absurd hp (passes_expr value ho)⟩
  · obtain ⟨hsome, hiff⟩ := equateAll_means hm hok fun kh hk => hT (hgetT kh hk)
    obtain ⟨st', hst'⟩ : ∃ st', c.put d (hs.map Prod.fst) st = some st' :=
      put_some st (by simpa using fun key handle hk => hsome (key, handle) hk)
    have hval := (put_writes hst').2
    rw [hact, store_known hd (hm.ne_unknown htext)]
    refine ⟨st', hst', fun hrec => hiff.2 fun kh hk v hv => ?_, fun _ hall key hkey t ht => ?_⟩
    · have hkey := List.mem_map_of_mem (f := Prod.fst) hk
      rw [Option.some.inj (hv.symm.trans (hval _ hkey))]
      exact (hrec _ hkey _ (hgetT kh hk)).1
    · obtain ⟨kh, hk, rfl⟩ := List.mem_map.1 hkey
      obtain rfl : kh.2 = t := Option.some.inj ((hgetT kh hk).symm.trans ht)
      exact ⟨hiff.1 hall kh hk _ (hval _ hkey), (as?_sort (hval _ hkey)).trans (hT ht).symm⟩

theorem augment_means [IsStrictOrderedRing K] (hT : c.SortedTable T) {target value : Node}
    {op : BinaryOp} {cs : List Term} (h : c.statement s (.augment target op value) p = .ok cs p')
    (hin : Inside T W p') (hr : c.Reads A σ T W s.previous st) (hstep : c.isStep target = false) :
    ∃ st', c.act A st (.augment target op value) = some st' ∧
      (c.Records A σ T s.previous (c.key? target).toList st' ↔ ∀ t ∈ cs, t.Holds A σ) := by
  obtain ⟨key, current, q1, operand, q2, combined, handle, equation, hk, hcurrent, hoperand,
    hcombined, hhandle, heq, rfl⟩ := augment_ok h
  have hin2 := hin.back (adds_writeKey s key hhandle)
  have hdc := hr.readKey hcurrent (hin2.back (adds_term s none value hoperand))
  obtain ⟨x, q', hx, hxt⟩ := Stateful.bind_ok.1 hoperand
  obtain ⟨rfl, w, hw, hdw⟩ := Means.value (expr_means hr value) hx hxt hin2
  obtain ⟨u, hu, hdu⟩ := encodeBinary_denotes hdc hdw hcombined
  have hget := hin.handles.kept (writeKey_ok hhandle)
  obtain ⟨v, hv, hhold⟩ := equate_means (d := .val u) heq hdu
  rw [hT hget] at hv
  have htarget : c.target? target = some key := by rw [target?, hstep]; exact hk
  refine ⟨st.set key v, ?_, ?_⟩
  · simp [act, htarget, hw, Datum.val?, hu, put, hv]
  · rw [List.forall_mem_singleton, hhold, hk]
    simp only [Records, Option.toList_some, List.forall_mem_singleton, hget, Option.some.injEq,
      forall_eq', Store.set, Function.update_self]
    exact ⟨fun hd => hd.1, fun hd => ⟨hd, (as?_sort hv).trans (hT hget).symm⟩⟩

/-- The targets of a statement do not name the time step. -/
def SparesStep (c : Context) (n : Node) : Prop :=
  n.writes (fun target => if c.isStep target then some () else none) = []

omit [Field K] [LinearOrder K] in
theorem SparesStep.assign {targets : List Node} {value : Node}
    (h : c.SparesStep (.assign targets value)) : ∀ n ∈ targets, c.isStep n = false := by
  intro n hn
  have hall := List.filterMap_eq_nil_iff.1 h n hn
  cases hs : c.isStep n
  · rfl
  · simp [hs] at hall

omit [Field K] [LinearOrder K] in
theorem SparesStep.augment {target value : Node} {op : BinaryOp}
    (h : c.SparesStep (.augment target op value)) : c.isStep target = false := by
  cases hs : c.isStep target
  · rfl
  · simp [SparesStep, Node.writes, hs] at h

/-- **A statement and its constraints.** The statement can be executed. A valuation that reads the
store before it satisfies the constraints if it records the store after it, and only then if nothing
is passed through. -/
theorem statement_means [IsStrictOrderedRing K] (hT : c.SortedTable T) {n : Node}
    {cs : List Term} (h : c.statement s n p = .ok cs p') (hin : Inside T W p')
    (hr : c.Reads A σ T W s.previous st) (hstep : c.SparesStep n) :
    ∃ st', c.act A st n = some st' ∧
      (c.Records A σ T s.previous (n.writes c.key?) st' → ∀ t ∈ cs, t.Holds A σ) ∧
      (p'.passed.toList = [] → (∀ t ∈ cs, t.Holds A σ) →
        c.Records A σ T s.previous (n.writes c.key?) st') := by
  cases n <;> try exact (Stateful.throw_ok h).elim
  case assign targets value =>
    rw [Node.writes]
    exact assign_means hT h hin hr hstep.assign
  case augment target op value =>
    rw [Node.writes]
    obtain ⟨st', hact, hiff⟩ := augment_means hT h hin hr hstep.augment
    exact ⟨st', hact, hiff.1, fun _ => hiff.2⟩
  case unsupported text =>
    obtain ⟨rfl, -⟩ := unsupported_ok h
    exact ⟨st, rfl, fun _ _ ht => absurd ht List.not_mem_nil,
      fun _ _ _ hk => absurd hk List.not_mem_nil⟩

/-! ### Ends of paths -/

theorem holds_closing {current latest : Term} {ts : List Term}
    (h : closing current latest = .ok ts) :
    (∀ t ∈ ts, t.Holds A σ) ↔ current.val A σ = latest.val A σ := by
  unfold closing at h
  split at h
  · next he =>
    cases h
    simp [he]
  · obtain ⟨t, ht, rfl⟩ := Attempt.map_ok.1 h
    rw [List.forall_mem_singleton, Term.holds_mkEq (checked_eq_ok.1 ht)]

/-- The post-step variables of some ports denote the values of a store. -/
def Closes (A : Arith K) (σ : Valuation K) (T : SymbolTable) (ports : List PortId)
    (st : Store K) : Prop :=
  ∀ q ∈ ports, ∀ t, T.get? (.port q) .current = some t → t.Denotes A σ (st.val (.port q))

theorem Closes.cons {q : PortId} {ports : List PortId} {t : Term}
    (h : T.get? (.port q) .current = some t) : Closes A σ T (q :: ports) st ↔
      t.Denotes A σ (st.val (.port q)) ∧ Closes A σ T ports st := by
  simp [Closes, h]

theorem closePorts_means (hT : c.SortedTable T) (hr : c.Reads A σ T W s.previous st) :
    ∀ {ports : List PortId} {p p' : Progress} {cs : List Term},
      c.closePorts s ports p = .ok cs p' → Inside T W p' →
      ((∀ t ∈ cs, t.Holds A σ) ↔ Closes A σ T ports st)
  | [], p, p', cs, h, _ => by
    obtain ⟨rfl, -⟩ := Stateful.pure_ok.1 h
    simp [Closes]
  | q :: ports, p, p', cs, h, hin => by
    obtain ⟨current, q1, latest, q2, first, others, hcurrent, hlatest, hclosing, hothers, rfl⟩ :=
      closePorts_ok h
    have hin2 := hin.back (adds_closePorts s ports hothers)
    have hd := hr.readKey hlatest hin2
    have hget := (hin2.back (adds_readKey s _ hlatest)).handles.kept (port_ok hcurrent)
    have hsort : (st.val (.port q)).sort = current.sort :=
      hd.2.trans ((hT (hin2.handles.kept (readKey_ok hlatest))).trans
        (@hT (.port q) _ _ hget).symm)
    rw [List.forall_mem_append, closePorts_means hT hr hothers hin, holds_closing hclosing, hd.1,
      Closes.cons hget]
    exact and_congr_left fun _ => ⟨fun hv => ⟨hv, hsort⟩, fun hv => hv.1⟩

/-- A return can be executed, and its constraint equates the post-step variable of the target with
the value that is returned. -/
theorem returned_means [IsStrictOrderedRing K] (hT : c.SortedTable T) {value : Option Node}
    {cs : List Term} (h : c.returned s value p = .ok cs p') (hin : Inside T W p')
    (hr : c.Reads A σ T W s.previous st) :
    ∃ target st', c.target = some target ∧ c.finish A st value = some st' ∧
      (Closes A σ T [target] st' → ∀ t ∈ cs, t.Holds A σ) ∧
      (p'.passed.toList = [] → (∀ t ∈ cs, t.Holds A σ) → Closes A σ T [target] st') := by
  obtain ⟨target, value, handle, q, o, htarget, rfl, hhandle, ho, hcs⟩ := returned_ok h
  have hgrew := adds_expr s value _ ho
  have hget := hin.handles.kept (hgrew.table.kept (port_ok hhandle))
  have hsort := @hT (.port target) _ _ hget
  rw [hsort] at ho
  obtain ⟨d, hd, hm⟩ := expr_means hr value ho hin
  have hfinish : c.finish A st (some value) = c.store A st [.port target] value := by
    rw [finish, htarget]
    rfl
  rcases hcs with ⟨⟨text, rfl⟩, rfl⟩ | ⟨htext, equation, heq, rfl⟩
  · obtain rfl := hm.eq_unknown
    exact ⟨target, _, htarget, hfinish.trans (store_unknown hd),
      fun _ _ ht => absurd ht List.not_mem_nil, fun hp => absurd hp (passes_expr value ho)⟩
  · obtain ⟨v, hv, hhold⟩ := equate_means heq hm
    rw [hsort] at hv
    refine ⟨target, st.set (.port target) v, htarget, ?_, ?_⟩
    · rw [hfinish, store_known hd (hm.ne_unknown htext)]
      simp [put, hv]
    · rw [List.forall_mem_singleton, hhold, Closes.cons hget]
      simp only [Store.set, Function.update_self]
      exact ⟨fun hc => hc.1.1, fun _ hval =>
        ⟨⟨hval, (as?_sort hv).trans hsort.symm⟩, fun _ hq => absurd hq List.not_mem_nil⟩⟩

end

end HybridStep.Context
