import HybridStep.Proofs.Encoding.Alteration

/-! # Meaning of encoded paths

Two inductions over the paths of a body. If a valuation that reads the store before a path satisfies
the constraints, then the run from this store ends with the values of the post-step variables
(`paths_exact`). And from every store that a valuation reads there is a run, and the valuation can
be altered in the handles that the run makes so that it satisfies the constraints (`paths_sound`).
A fork hands on the counts of writes to both arms; the constraints of the arm that is not taken are
never looked at. -/

namespace HybridStep.Context

variable {c : Context} {T : SymbolTable} {W : OrderedSet PortId}

/-- The ports that are written on the paths of a flow are among those of the body. -/
def Owns (c : Context) (fl : Flow) : Prop :=
  fl.All (fun n => ∀ key ∈ n.writes c.key?, c.Own key)
    (∀ q, c.target = some q → q ∈ c.writtenPorts)

/-- The statements of a flow leave the time step alone, and the ports that are written on its paths
are among those of the body. -/
def Covers (c : Context) (fl : Flow) : Prop :=
  fl.All (fun n => c.SparesStep n ∧ ∀ key ∈ n.writes c.key?, c.Own key)
    (∀ q, c.target = some q → q ∈ c.writtenPorts)

theorem mem_writtenKeys {n : Node} {key : VarKey} :
    key ∈ c.writtenKeys n ↔ key ∈ n.writes c.key? := OrderedSet.mem_ofList

variable {K : Type} [Field K] [LinearOrder K] {A : Arith K}

theorem scope_reads {s : Scope} {statements : List Node} {σ : Valuation K} {st : Store K}
    (hr : c.Reads A σ T W s.previous st) :
    c.Reads A σ T W (c.scope statements s.versions).previous st := by
  rwa [previous_scope_versions]

theorem next_reads {s : Scope} {n : Node} {rest : List Node} {σ : Valuation K} {st st' : Store K}
    (hat : c.At s (n :: rest)) (hr : c.Reads A σ T W s.previous st)
    (hact : c.act A st n = some st')
    (hrec : c.Records A σ T s.previous (n.writes c.key?) st') :
    c.Reads A σ T W (Scope.previous { s with position := s.position + 1 }) st' := by
  refine hr.next (act_writes hact) hrec fun key => ?_
  rw [hat.previous_next]
  simp only [mem_writtenKeys]

/-- The test of a fork has a truth value, which its encoding denotes. -/
theorem test_means [IsStrictOrderedRing K] {s : Scope} {p p' : Progress} {σ : Valuation K}
    {st : Store K} {n : Node} {cond : Term} (h : c.term s (some .bool) n p = .ok cond p')
    (hin : Inside T W p') (hr : c.Reads A σ T W s.previous st) (hs : cond.sort = .bool) :
    ∃ b, c.test A st n = some b ∧ cond.Denotes A σ (.bool b) := by
  obtain ⟨o, q, ho, h⟩ := Stateful.bind_ok.1 h
  obtain ⟨ht, rfl⟩ := Encoder.lift_ok.1 h
  obtain ⟨d, hd, hm⟩ := expr_means hr n ho hin
  obtain ⟨b, hb, hden⟩ := truth_of_means hm ht hs
  exact ⟨b, by simp [test, hd, hb], hden⟩

/-- What a fork is encoded to. -/
theorem forked_ok {cond t : Term} {yes no : List Term} (h : forked cond yes no = .ok t) :
    cond.sort = .bool ∧ ∀ {σ : Valuation K} {b : Bool}, cond.Denotes A σ (.bool b) →
      (t.Holds A σ ↔ ∀ x ∈ if b then yes else no, x.Holds A σ) := by
  obtain ⟨ty, hy, h⟩ := Attempt.bind_ok.1 h
  obtain ⟨tn, hn, h⟩ := Attempt.bind_ok.1 h
  have hi := checked_eq_ok.1 h
  refine ⟨(Term.mkIte_ok hi).1, fun {σ b} hd => ?_⟩
  rw [Term.holds_mkIte hd hi]
  cases b
  · exact Term.holds_mkAnd (checked_eq_ok.1 hn)
  · exact Term.holds_mkAnd (checked_eq_ok.1 hy)

/-- A return changes the target only. -/
theorem finish_writes {st st' : Store K} {target : PortId} {value : Option Node}
    (htarget : c.target = some target) (h : c.finish A st value = some st') :
    c.Writes [.port target] st st' := by
  obtain ⟨q, hq, h⟩ := Option.bind_eq_some_iff.1 h
  obtain ⟨v, -, h⟩ := Option.bind_eq_some_iff.1 h
  obtain rfl := Option.some.inj (hq.symm.trans htarget)
  exact store_writes h

/-- The ports that are closed before a return keep their values, and the return closes the
target. -/
theorem closes_iff_of_return {σ : Valuation K} {st st' : Store K} {target : PortId}
    (htarget : c.target = some target) (hw : c.Writes [.port target] st st')
    (hmem : target ∈ c.writtenPorts) :
    Closes A σ T c.writtenPorts.toList st' ↔
      Closes A σ T (c.writtenPorts.toList.filter fun q => some q ≠ c.target) st ∧
        Closes A σ T [target] st' := by
  have hsame : ∀ q, some q ≠ c.target → st'.val (.port q) = st.val (.port q) := fun q hq =>
    hw.frame (by simpa [htarget, eq_comm] using hq)
  constructor
  · refine fun h => ⟨fun q hq t ht => ?_, fun q hq => ?_⟩
    · obtain ⟨hq, hne⟩ := List.mem_filter.1 hq
      rw [← hsame q (by simpa using hne)]
      exact h q hq t ht
    · rw [List.mem_singleton.1 hq]
      exact h target hmem
  · rintro ⟨hclosed, hret⟩ q hq
    by_cases he : some q = c.target
    · obtain rfl : target = q := Option.some.inj (htarget.symm.trans he.symm)
      exact hret target List.mem_cons_self
    · rw [hsame q he]
      exact hclosed q (List.mem_filter.2 ⟨hq, by simpa using he⟩)

variable [IsStrictOrderedRing K]

/-- **Exactness on every path.** If nothing is passed through, a solution of the constraints gives
the post-step variables the values with which the run ends. -/
theorem paths_exact (hT : c.SortedTable T) {σ : Valuation K} : (fl : Flow) →
    ∀ {s : Scope} {p p' : Progress} {cs : List Term} {st : Store K},
      c.paths fl s p = .ok cs p' → Inside T W p' → c.At s fl.straight → c.Covers fl →
      c.Reads A σ T W s.previous st → p'.passed.toList = [] → (∀ t ∈ cs, t.Holds A σ) →
      ∃ st', c.runFlow A st fl = some st' ∧ Closes A σ T c.writtenPorts.toList st'
  | .done, s, p, p', cs, st, h, hin, _, _, hr, _, hold =>
    ⟨st, rfl, (closePorts_means hT hr h hin).1 hold⟩
  | .step n rest, s, p, p', cs, st, h, hin, hat, hcov, hr, hpass, hold => by
    obtain ⟨here, q, there, hhere, hthere, rfl⟩ := step_ok h
    rw [List.forall_mem_append] at hold
    have hgrew := adds_paths rest _ hthere
    obtain ⟨st1, hact, -, hrec⟩ := statement_means hT hhere (hin.back hgrew) hr hcov.1.1
    have hnext := next_reads hat hr hact (hrec (hgrew.nothing_passed hpass) hold.1)
    obtain ⟨st', hrun, hclose⟩ := paths_exact hT rest hthere hin hat.next hcov.2 hnext hpass hold.2
    exact ⟨st', by simp [runFlow, hact, hrun], hclose⟩
  | .ret value, s, p, p', cs, st, h, hin, _, hcov, hr, hpass, hold => by
    obtain ⟨closed, q, written, hclosed, hwritten, rfl⟩ := ret_ok h
    rw [List.forall_mem_append] at hold
    obtain ⟨target, st', htarget, hfinish, -, hret⟩ := returned_means hT hwritten hin hr
    have hclose := (closePorts_means hT hr hclosed (hin.back (adds_returned s value hwritten))).1
      hold.1
    exact ⟨st', hfinish, (closes_iff_of_return htarget (finish_writes htarget hfinish)
      (hcov target htarget)).2 ⟨hclose, hret hpass hold.2⟩⟩
  | .fork test whole yes no, s, p, p', cs, st, h, hin, _, hcov, hr, hpass, hold => by
    obtain ⟨cond, p1, ys, p2, ns, t, hcond, hyes, hno, hfork, rfl⟩ := fork_ok h
    have hgrew := adds_paths no _ hno
    have hin2 := hin.back hgrew
    obtain ⟨hbool, hiff⟩ := forked_ok (A := A) hfork
    obtain ⟨b, hb, hd⟩ := test_means hcond (hin2.back (adds_paths yes _ hyes)) hr hbool
    have hold := (hiff hd).1 (hold t List.mem_cons_self)
    cases b
    · obtain ⟨st', hrun, hclose⟩ := paths_exact hT no hno hin (at_scope _ _) hcov.2
        (scope_reads hr) hpass hold
      exact ⟨st', by simp [runFlow, hb, hrun], hclose⟩
    · obtain ⟨st', hrun, hclose⟩ := paths_exact hT yes hyes hin2 (at_scope _ _) hcov.1
        (scope_reads hr) (hgrew.nothing_passed hpass) hold
      exact ⟨st', by simp [runFlow, hb, hrun], hclose⟩

/-! ### Soundness -/

omit [IsStrictOrderedRing K] in
theorem denotes_override (hT : c.Proper T W) {D : VarKey → Version → Prop} {σ : Valuation K}
    {st : Store K} (hs : c.SortedStore st) (key : VarKey) {v : Version} {t : Term}
    (hg : T.get? (c.symbolKey key) v = some t) (hv : v ≠ .prior) (hD : D key v) :
    t.Denotes A (T.override (c.Handles D) st.valueOf σ) (st.val key) := by
  rcases hT.canonical.var_or_prior hg with ⟨x, rfl⟩ | ⟨-, hp, -⟩
  · refine ⟨?_, (hs.val key).trans (hT.sorted hg).symm⟩
    exact (T.override_of_mem hT.distinct hg (handles_symbolKey.2 hD)).trans (valueOf_symbolKey ..)
  · exact absurd hp hv

omit [IsStrictOrderedRing K] in
theorem exists_closing (hT : c.Proper T W) (count : VarKey → Nat) (σ : Valuation K) {st : Store K}
    (hs : c.SortedStore st) :
    ∃ σ', c.Alters T count σ σ' ∧ Closes A σ' T c.writtenPorts.toList st := by
  refine ⟨T.override (c.Handles fun key v => v = .current ∧ ∃ q, key = .port q ∧
    q ∈ c.writtenPorts) st.valueOf σ, alters_override hT.distinct hT.sorted hs ?_,
    fun q hq t hg => ?_⟩
  · rintro key v ⟨rfl, q, rfl, hq⟩
    exact ⟨hq, .inr ⟨rfl, q, rfl⟩⟩
  · exact denotes_override hT hs (.port q) hg (by simp [Version.prior]) ⟨rfl, q, rfl, hq⟩

omit [IsStrictOrderedRing K] in
theorem exists_recording (hT : c.Proper T W) (count : VarKey → Nat) (σ : Valuation K)
    {st : Store K} (hs : c.SortedStore st) {keys : List VarKey} (hk : ∀ key ∈ keys, c.Own key) :
    ∃ σ', c.Alters T count σ σ' ∧ c.Records A σ' T count keys st := by
  refine ⟨T.override (c.Handles fun key v => key ∈ keys ∧ v = .index (count key + 1)) st.valueOf σ,
    alters_override hT.distinct hT.sorted hs ?_, fun key hkey t hg => ?_⟩
  · rintro key v ⟨hkey, rfl⟩
    exact ⟨hk key hkey, .inl ⟨_, rfl, Nat.lt_succ_self _⟩⟩
  · exact denotes_override hT hs _ hg (by simp [Version.prior]) ⟨hkey, rfl⟩

/-- A valuation records how a run ends and satisfies constraints, and so does every valuation that
agrees with it. -/
structure Recorded (c : Context) (A : Arith K) (T : SymbolTable) (W : OrderedSet PortId)
    (σ : Valuation K) (st : Store K) (cs : List Term) : Prop where
  closes : Closes A σ T c.writtenPorts.toList st
  holds {σ' : Valuation K} : c.Agrees T W σ σ' → ∀ t ∈ cs, t.Holds A σ'

section

variable {s : Scope} {p p' : Progress} {cs there : List Term} {st st₁ st' : Store K}
variable {σ σ' : Valuation K} {n : Node}
variable (hT : c.Proper T W) (hc : ∀ q, s.previous (.port q) ≠ 0 → q ∈ c.writtenPorts)
  (hr : c.Reads A σ T W s.previous st)

include hT hc hr

omit [IsStrictOrderedRing K] in
/-- The end of a body is recorded by its post-step variables. -/
theorem close_sound (h : c.close s p = .ok cs p') (hin : Inside T W p') (hs : c.SortedStore st) :
    ∃ σ', c.Alters T s.previous σ σ' ∧ c.Recorded A T W σ' st cs := by
  obtain ⟨σ', halt, hclose⟩ := exists_closing (A := A) hT s.previous σ hs
  refine ⟨σ', halt, hclose, fun hag => ?_⟩
  exact (closePorts_means hT.sorted (hag.reads hT hc (halt.reads hT hr)) h hin).2
    (hag.closes hT (fun _ hq => hq) hclose)

/-- A return is recorded by the post-step variables, that of the target with the value. -/
theorem ret_sound {value : Option Node} (h : c.paths (.ret value) s p = .ok cs p')
    (hin : Inside T W p') (hown : ∀ q, c.target = some q → q ∈ c.writtenPorts)
    (hs : c.SortedStore st) :
    ∃ st' σ', c.finish A st value = some st' ∧ c.Alters T s.previous σ σ' ∧
      c.Recorded A T W σ' st' cs := by
  obtain ⟨closed, q, written, hclosed, hwritten, rfl⟩ := ret_ok h
  obtain ⟨target, st', htarget, hfinish, -, -⟩ := returned_means hT.sorted hwritten hin hr
  have hw := finish_writes htarget hfinish
  obtain ⟨σ', halt, hclose⟩ := exists_closing (A := A) hT s.previous σ (hw.sorted hs)
  refine ⟨st', σ', hfinish, halt, hclose, fun hag => ?_⟩
  have hr' := hag.reads hT hc (halt.reads hT hr)
  obtain ⟨hports, hret⟩ := (closes_iff_of_return htarget hw (hown target htarget)).1
    (hag.closes hT (fun _ hq => hq) hclose)
  obtain ⟨_, st'', htarget', hfinish', hhold, -⟩ := returned_means hT.sorted hwritten hin hr'
  obtain rfl := Option.some.inj (htarget.symm.trans htarget')
  obtain rfl := Option.some.inj (hfinish.symm.trans hfinish')
  exact List.forall_mem_append.2 ⟨(closePorts_means hT.sorted hr' hclosed
    (hin.back (adds_returned s value hwritten))).2 hports, hhold hret⟩

/-- What records the rest of a path and the values of a statement before it records both. -/
theorem Recorded.step (hrec : c.Recorded A T W σ' st' there) (halt : c.Alters T s.previous σ σ')
    (h : c.statement s n p = .ok cs p') (hin : Inside T W p') (hspare : c.SparesStep n)
    (hown : ∀ key ∈ n.writes c.key?, c.Own key) (hact : c.act A st n = some st₁)
    (hvalues : c.Records A σ' T s.previous (n.writes c.key?) st₁) :
    c.Recorded A T W σ' st' (cs ++ there) := by
  refine ⟨hrec.closes, fun hag => ?_⟩
  have hr' := hag.reads hT hc (halt.reads hT hr)
  obtain ⟨st₂, hact', hhold, -⟩ := statement_means hT.sorted h hin hr' hspare
  obtain rfl := Option.some.inj (hact.symm.trans hact')
  exact List.forall_mem_append.2 ⟨hhold (hag.records hT hown hvalues), hrec.holds hag⟩

/-- What records the arm of a fork that is taken records the fork. -/
theorem Recorded.choice {b : Bool} {cond t : Term} {yes no : List Term}
    (hrec : c.Recorded A T W σ' st' (if b then yes else no)) (halt : c.Alters T s.previous σ σ')
    (h : c.term s (some .bool) n p = .ok cond p') (hin : Inside T W p')
    (hb : c.test A st n = some b) (hfork : forked cond yes no = .ok t) :
    c.Recorded A T W σ' st' [t] := by
  refine ⟨hrec.closes, fun hag => List.forall_mem_singleton.2 ?_⟩
  obtain ⟨hbool, hiff⟩ := forked_ok (A := A) hfork
  obtain ⟨b', hb', hd⟩ := test_means h hin (hag.reads hT hc (halt.reads hT hr)) hbool
  obtain rfl := Option.some.inj (hb.symm.trans hb')
  exact (hiff hd).2 (hrec.holds hag)

end

/-- **Soundness on every path.** There is a run from a store that a valuation reads, and the
valuation can be altered so that it records the run. -/
theorem paths_sound (hT : c.Proper T W) : (fl : Flow) →
    ∀ {s : Scope} {p p' : Progress} {cs : List Term} {st : Store K} {σ : Valuation K},
      c.paths fl s p = .ok cs p' → Inside T W p' → c.At s fl.straight → c.Covers fl →
      (∀ q, s.previous (.port q) ≠ 0 → q ∈ c.writtenPorts) → c.SortedStore st →
      c.Reads A σ T W s.previous st →
      ∃ st' σ', c.runFlow A st fl = some st' ∧ c.Alters T s.previous σ σ' ∧
        c.Recorded A T W σ' st' cs
  | .done, s, p, p', cs, st, σ, h, hin, _, _, hc, hs, hr => by
    obtain ⟨σ', halt, hrec⟩ := close_sound (A := A) hT hc hr h hin hs
    exact ⟨st, σ', rfl, halt, hrec⟩
  | .ret value, s, p, p', cs, st, σ, h, hin, _, hcov, hc, hs, hr =>
    ret_sound hT hc hr h hin hcov hs
  | .step n rest, s, p, p', cs, st, σ, h, hin, hat, hcov, hc, hs, hr => by
    obtain ⟨here, q, there, hhere, hthere, rfl⟩ := step_ok h
    have hin₁ := hin.back (adds_paths rest _ hthere)
    obtain ⟨st₁, hact, -, -⟩ := statement_means hT.sorted hhere hin₁ hr hcov.1.1
    have hs₁ := (act_writes hact).sorted hs
    obtain ⟨σ₁, halt₁, hvalues⟩ := exists_recording (A := A) hT s.previous σ hs₁ hcov.1.2
    have hcount := hat.previous_next
    simp only [mem_writtenKeys] at hcount
    have hc₁ : ∀ q, Scope.previous { s with position := s.position + 1 } (.port q) ≠ 0 →
        q ∈ c.writtenPorts := fun q hq => by
      rw [hcount] at hq
      split_ifs at hq with hk
      · exact hcov.1.2 _ hk
      · exact hc q hq
    obtain ⟨st', σ', hrun, halt, hrec⟩ := paths_sound hT rest hthere hin hat.next hcov.2 hc₁ hs₁
      (next_reads hat (halt₁.reads hT hr) hact hvalues)
    -- the rest of the path makes later versions only, so the values of the statement stay
    have hall := halt₁.trans halt fun key => by rw [hcount]; exact Nat.le_add_right _ _
    have hkept := halt.records hT (fun key hk => by rw [hcount, if_pos hk]) hvalues
    exact ⟨st', σ', by simp [runFlow, hact, hrun], hall,
      hrec.step hT hc hr hall hhere hin₁ hcov.1.1 hcov.1.2 hact hkept⟩
  | .fork test whole yes no, s, p, p', cs, st, σ, h, hin, _, hcov, hc, hs, hr => by
    obtain ⟨cond, p₁, ys, p₂, ns, t, hcond, hyes, hno, hfork, rfl⟩ := fork_ok h
    have hin₂ := hin.back (adds_paths no _ hno)
    have hin₁ := hin₂.back (adds_paths yes _ hyes)
    obtain ⟨b, hb, -⟩ := test_means hcond hin₁ hr (forked_ok (A := A) hfork).1
    cases b
    · obtain ⟨st', σ', hrun, halt, hrec⟩ := paths_sound hT no hno hin (at_scope _ _) hcov.2
        (by rwa [previous_scope_versions]) hs (scope_reads hr)
      rw [previous_scope_versions] at halt
      exact ⟨st', σ', by simp [runFlow, hb, hrun], halt,
        Recorded.choice (b := false) hT hc hr hrec halt hcond hin₁ hb hfork⟩
    · obtain ⟨st', σ', hrun, halt, hrec⟩ := paths_sound hT yes hyes hin₂ (at_scope _ _) hcov.1
        (by rwa [previous_scope_versions]) hs (scope_reads hr)
      rw [previous_scope_versions] at halt
      exact ⟨st', σ', by simp [runFlow, hb, hrun], halt,
        Recorded.choice (b := true) hT hc hr hrec halt hcond hin₁ hb hfork⟩

end HybridStep.Context
