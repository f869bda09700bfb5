import HybridStep.Proofs.Encoding.Plain

/-! # What an update sees of earlier modifiers

Of the ports that earlier modifiers have written, a body sees only those that it reads or writes
itself: its expressions look up the chains of names that it reads, and the ends of its paths close
the ports that it writes. So on two tables on which these ports are noted alike, an update is
encoded to the same constraints, or fails on both. -/

namespace HybridStep

/-! ### Reads of a flow -/

namespace Flow

/-- The chains of names that the statements, tests and returns of a flow read. -/
def reads : Flow → List (List String)
  | done => []
  | step n rest => n.reads ++ rest.reads
  | ret value => Node.readsOfValue value
  | fork test _ yes no => test.reads ++ (yes.reads ++ no.reads)

variable {chains : List (List String)}

mutual

theorem reads_prepend {rest : Flow} (hrest : rest.reads ⊆ chains) :
    (n : Node) → n.reads ⊆ chains → (prepend rest n).reads ⊆ chains
  | .ret _, hn => hn
  | .branch test body orelse, hn => by
    simp only [Node.reads, List.append_subset] at hn
    exact List.append_subset.2 ⟨hn.1.1, List.append_subset.2
      ⟨reads_prependList hrest body hn.1.2, reads_prependElse hrest orelse hn.2⟩⟩
  | .block body, hn => reads_prependList hrest body hn
  | .literal _, hn => List.append_subset.2 ⟨hn, hrest⟩
  | .name _, hn => List.append_subset.2 ⟨hn, hrest⟩
  | .access _, hn => List.append_subset.2 ⟨hn, hrest⟩
  | .assign .., hn => List.append_subset.2 ⟨hn, hrest⟩
  | .augment .., hn => List.append_subset.2 ⟨hn, hrest⟩
  | .unary .., hn => List.append_subset.2 ⟨hn, hrest⟩
  | .binary .., hn => List.append_subset.2 ⟨hn, hrest⟩
  | .logical .., hn => List.append_subset.2 ⟨hn, hrest⟩
  | .compare .., hn => List.append_subset.2 ⟨hn, hrest⟩
  | .choice .., hn => List.append_subset.2 ⟨hn, hrest⟩
  | .unsupported _, hn => List.append_subset.2 ⟨hn, hrest⟩

theorem reads_prependList {rest : Flow} (hrest : rest.reads ⊆ chains) :
    (ns : List Node) → Node.readsOfList ns ⊆ chains → (prependList rest ns).reads ⊆ chains
  | [], _ => hrest
  | n :: ns, hns => by
    simp only [Node.readsOfList, List.append_subset] at hns
    exact reads_prepend (reads_prependList hrest ns hns.2) n hns.1

theorem reads_prependElse {rest : Flow} (hrest : rest.reads ⊆ chains) :
    (orelse : Option (List Node)) → Node.readsOfElse orelse ⊆ chains →
      (prependElse rest orelse).reads ⊆ chains
  | none, _ => hrest
  | some body, hbody => reads_prependList hrest body hbody

end

/-- A flow reads no more than its body. -/
theorem reads_ofBody (body : List Node) : (ofBody body).reads ⊆ Node.readsOfList body :=
  reads_prependList (List.nil_subset _) body (List.Subset.refl _)

end Flow

namespace Context

/-! ### Expressions -/

section

variable {leaf leaf' : Node → Except EncodingError Term}

mutual

theorem plain_congr (hname : ∀ name, leaf (.name name) = leaf' (.name name)) :
    (n : Node) → (hint : Option TermSort) →
    (∀ segments ∈ n.reads, leaf (.access segments) = leaf' (.access segments)) →
      plain leaf hint n = plain leaf' hint n
  | .literal _, _, _ => rfl
  | .name name, _, _ => by rw [plain, plain, hname]
  | .access segments, _, h => by rw [plain, plain, h segments List.mem_cons_self]
  | .unary .identity operand, hint, h => plain_congr hname operand hint h
  | .unary .not operand, _, h => by simp only [plain, plain_congr hname operand none h]
  | .unary .neg operand, _, h => by simp only [plain, plain_congr hname operand none h]
  | .binary _ left right, _, h => by
    simp only [Node.reads, List.forall_mem_append] at h
    simp only [plain, plain_congr hname left none h.1, plain_congr hname right none h.2]
  | .logical _ values, _, h => by simp only [plain, plainTruths_congr hname values h]
  | .compare left _ others, _, h => by
    simp only [Node.reads, List.forall_mem_append] at h
    simp only [plain, plain_congr hname left none h.1, plainAll_congr hname others h.2]
  | .choice test body orelse, hint, h => by
    simp only [Node.reads, List.forall_mem_append] at h
    simp only [plain, plain_congr hname test (some .bool) h.1.1, plain_congr hname body hint h.1.2,
      plain_congr hname orelse hint h.2]
  | .unsupported _, _, _ => rfl
  | .assign .., _, _ => rfl
  | .augment .., _, _ => rfl
  | .branch .., _, _ => rfl
  | .ret _, _, _ => rfl
  | .block _, _, _ => rfl

theorem plainAll_congr (hname : ∀ name, leaf (.name name) = leaf' (.name name)) : (ns : List Node) →
    (∀ segments ∈ Node.readsOfList ns, leaf (.access segments) = leaf' (.access segments)) →
      plainAll leaf ns = plainAll leaf' ns
  | [], _ => rfl
  | n :: ns, h => by
    simp only [Node.readsOfList, List.forall_mem_append] at h
    rw [plainAll, plainAll, plain_congr hname n none h.1, plainAll_congr hname ns h.2]

theorem plainTruths_congr (hname : ∀ name, leaf (.name name) = leaf' (.name name)) :
    (ns : List Node) →
    (∀ segments ∈ Node.readsOfList ns, leaf (.access segments) = leaf' (.access segments)) →
      plainTruths leaf ns = plainTruths leaf' ns
  | [], _ => rfl
  | n :: ns, h => by
    simp only [Node.readsOfList, List.forall_mem_append] at h
    rw [plainTruths, plainTruths, plain_congr hname n (some .bool) h.1,
      plainTruths_congr hname ns h.2]

end

end

/-! ### Contexts that match -/

/-- Two contexts in which names stand for the same things, apart from the values of ports before the
step. -/
structure Matches (c c' : Context) : Prop where
  key : c.key? = c'.key?
  keyName : c.keyName = c'.keyName
  isStep : c.isStep = c'.isStep
  sort : c.sortOfLocal = c'.sortOfLocal
  modifier : c.modifier = c'.modifier
  modifierName : c.modifierName = c'.modifierName
  target : c.target = c'.target
  options : c.options = c'.options
  writtenPorts : c.writtenPorts = c'.writtenPorts
  term {q : PortId} {v : Version} : v ≠ .prior →
    SymbolTable.portTerm c.model q v = SymbolTable.portTerm c'.model q v

variable {c c' : Context} {entry entry' : Entry} {count : VarKey → Nat}

theorem Matches.refl (c : Context) : c.Matches c :=
  ⟨rfl, rfl, rfl, rfl, rfl, rfl, rfl, rfl, rfl, fun _ => rfl⟩

theorem Matches.symm (h : c.Matches c') : c'.Matches c :=
  ⟨h.key.symm, h.keyName.symm, h.isStep.symm, h.sort.symm, h.modifier.symm, h.modifierName.symm,
    h.target.symm, h.options.symm, h.writtenPorts.symm, fun hv => (h.term hv).symm⟩

theorem Matches.trans {c'' : Context} (h : c.Matches c') (h' : c'.Matches c'') : c.Matches c'' :=
  ⟨h.key.trans h'.key, h.keyName.trans h'.keyName, h.isStep.trans h'.isStep, h.sort.trans h'.sort,
    h.modifier.trans h'.modifier, h.modifierName.trans h'.modifierName, h.target.trans h'.target,
    h.options.trans h'.options, h.writtenPorts.trans h'.writtenPorts,
    fun hv => (h.term hv).trans (h'.term hv)⟩

theorem Matches.keyed (h : c.Matches c') : c.keyed = c'.keyed := by
  funext n
  rw [Context.keyed, Context.keyed, h.key]

theorem Matches.after (h : c.Matches c') : c.after = c'.after := by
  funext count n key
  unfold Context.after Context.writtenKeys
  rw [h.key]

theorem Matches.writing (h : c.Matches c') : c.writing count = c'.writing count := by
  funext key
  unfold Context.writing handle
  cases key with
  | port q => exact h.term (by simp [Version.prior])
  | «local» name => rw [h.modifier, h.sort]

theorem Matches.made (h : c.Matches c') :
    (c.asEncoded entry count).made = (c'.asEncoded entry' count).made := by
  funext n
  simp only [asEncoded, h.keyed, h.writing]

theorem Matches.equate (h : c.Matches c') : c.equate = c'.equate := by
  funext handle key value
  unfold Context.equate Context.bind
  rw [h.keyName]

theorem Matches.equateAll (h : c.Matches c') (value : Operand) :
    ∀ handles : List (VarKey × Term), c.equateAll value handles = c'.equateAll value handles
  | [] => rfl
  | (key, handle) :: rest => by
    rw [Context.equateAll, Context.equateAll, h.equate, h.equateAll value rest]

/-! ### Situations that agree on some ports -/

/-- In two situations a port stands for the same on entry. -/
def EntersAlike (c c' : Context) (entry entry' : Entry) (q : PortId) : Prop :=
  SymbolTable.portTerm c.model q (SymbolTable.entryVersion entry.written q) =
    SymbolTable.portTerm c'.model q (SymbolTable.entryVersion entry'.written q)

theorem entersAlike_of_written {q : PortId} (h : q ∈ entry.written ↔ q ∈ entry'.written) :
    c.EntersAlike c entry entry' q := by
  simp only [EntersAlike, SymbolTable.entryVersion, h]

/-- Two contexts that match, with one name of the time step, in which the ports that given chains of
names reach stand for the same on entry. -/
structure Agree (c c' : Context) (chains : List (List String)) (entry entry' : Entry) : Prop where
  matching : c.Matches c'
  stepName : entry.stepName = entry'.stepName
  reached {segments : List String} {q : PortId} : segments ∈ chains →
    c.key? (.access segments) = some (.port q) → c.EntersAlike c' entry entry' q

variable {chains chains' : List (List String)}

theorem Agree.mono (h : c.Agree c' chains entry entry') (hsub : chains' ⊆ chains) :
    c.Agree c' chains' entry entry' :=
  ⟨h.matching, h.stepName, fun hin => h.reached (hsub hin)⟩

theorem reading_congr (hm : c.Matches c') {key : VarKey}
    (h : ∀ q, key = .port q → c.EntersAlike c' entry entry' q) :
    c.reading entry count key = c'.reading entry' count key := by
  unfold reading handle
  cases hk : count key with
  | succ k =>
    cases key with
    | «local» name => rw [hm.modifier, hm.sort, readVersion, readVersion]
    | port q => exact hm.term (by simp [Version.prior, readVersion])
  | zero =>
    cases key with
    | «local» name => rw [hm.modifier, hm.sort, readVersion, readVersion]
    | port q => exact h q rfl

/-- Only a chain of names reaches a port. -/
theorem access_of_port {n : Node} {q : PortId} (h : c.key? n = some (.port q)) :
    ∃ segments, n = .access segments := by
  cases n with
  | access segments => exact ⟨segments, rfl⟩
  | name name => cases h
  | _ => cases h

theorem Agree.held (h : c.Agree c' chains entry entry') {n : Node} (hn : n.reads ⊆ chains) :
    (c.asEncoded entry count).held n = (c'.asEncoded entry' count).held n := by
  simp only [asEncoded, keyed]
  rw [← h.matching.key]
  cases hkey : c.key? n with
  | none => rfl
  | some key =>
    refine reading_congr h.matching fun q hq => ?_
    subst hq
    obtain ⟨segments, rfl⟩ := access_of_port hkey
    exact h.reached (hn List.mem_cons_self) hkey

theorem Agree.leaf (h : c.Agree c' chains entry entry') {n : Node} (hn : n.reads ⊆ chains) :
    (c.asEncoded entry count).leaf n = (c'.asEncoded entry' count).leaf n := by
  have hheld : (c.asEncoded entry count).held n = (c'.asEncoded entry' count).held n := h.held hn
  simp only [asEncoded] at hheld ⊢
  rw [hheld, stepVariable, stepVariable, h.stepName, h.matching.isStep]

theorem Agree.plain (h : c.Agree c' chains entry entry') {n : Node} (hn : n.reads ⊆ chains)
    (hint : Option TermSort) : Context.plain (c.asEncoded entry count).leaf hint n =
      Context.plain (c'.asEncoded entry' count).leaf hint n :=
  plain_congr (fun _ => h.leaf (List.nil_subset _)) n hint fun _ hsegments =>
    h.leaf (List.cons_subset.2 ⟨hn hsegments, List.nil_subset _⟩)

theorem Agree.statement (h : c.Agree c' chains entry entry') {n : Node} (hn : n.reads ⊆ chains) :
    plainStatement c (c.asEncoded entry count) n =
      plainStatement c' (c'.asEncoded entry' count) n := by
  have hmade : (c.asEncoded entry count).made = (c'.asEncoded entry' count).made :=
    h.matching.made
  cases n <;> try rfl
  case assign targets value =>
    simp only [plainStatement, madeAll_congr hmade, h.plain (n := value) hn,
      h.matching.equateAll]
  case augment target op value =>
    simp only [Node.reads, List.append_subset] at hn
    simp only [plainStatement, plainTerm, hmade, h.held hn.1, h.plain hn.2, h.matching.equate]

theorem plainClosing_agree (hm : c.Matches c') : ∀ {ports : List PortId},
    (∀ q ∈ ports, c.EntersAlike c' entry entry' q) →
      plainClosing c (c.asEncoded entry count) ports =
        plainClosing c' (c'.asEncoded entry' count) ports
  | [], _ => rfl
  | q :: ports, h => by
    rw [List.forall_mem_cons] at h
    have hcurrent : SymbolTable.portTerm c.model q .current =
        SymbolTable.portTerm c'.model q .current := hm.term (by simp [Version.prior])
    have hread : c.reading entry count (.port q) = c'.reading entry' count (.port q) :=
      reading_congr hm fun _ heq => VarKey.port.inj heq ▸ h.1
    have hlatest : (c.asEncoded entry count).latest q = (c'.asEncoded entry' count).latest q :=
      hread
    rw [plainClosing, plainClosing, hcurrent, hlatest, plainClosing_agree hm h.2]

/-! ### Paths -/

/-- **What a flow becomes depends on the ports that it reads and on those that the body writes.** -/
theorem Agree.trace (hwritten : ∀ q ∈ c.writtenPorts.toList, c.EntersAlike c' entry entry' q) :
    (fl : Flow) → (count : VarKey → Nat) → c.Agree c' fl.reads entry entry' →
      plainTrace c entry fl count = plainTrace c' entry' fl count
  | .done, _, h => by
    rw [plainTrace, plainTrace, plainDone, plainDone, ← h.matching.writtenPorts,
      plainClosing_agree h.matching hwritten]
  | .step n rest, count, h => by
    have hn : c.Agree c' n.reads entry entry' := h.mono (List.subset_append_left _ _)
    rw [plainTrace, plainTrace, hn.statement (List.Subset.refl _), ← h.matching.after,
      Agree.trace hwritten rest _ (h.mono (List.subset_append_right _ _))]
  | .ret value, count, h => by
    have hclosed : plainClosing c (c.asEncoded entry count)
          (c.writtenPorts.toList.filter fun p => some p ≠ c.target) =
        plainClosing c' (c'.asEncoded entry' count)
          (c.writtenPorts.toList.filter fun p => some p ≠ c.target) :=
      plainClosing_agree h.matching fun q hq => hwritten q (List.mem_of_mem_filter hq)
    have hreturned : plainReturned c (c.asEncoded entry count) value =
        plainReturned c' (c'.asEncoded entry' count) value := by
      unfold plainReturned
      rw [← h.matching.target, ← h.matching.modifierName, ← h.matching.equate]
      rcases c.target with _ | target
      · rfl
      rcases value with _ | value
      · rfl
      have hcurrent : SymbolTable.portTerm c.model target .current =
          SymbolTable.portTerm c'.model target .current :=
        h.matching.term (by simp [Version.prior])
      have hvalue : c.Agree c' value.reads entry entry' := h
      simp only [hcurrent, hvalue.plain (List.Subset.refl _)]
    rw [plainTrace, plainTrace, plainRet, plainRet, ← h.matching.writtenPorts,
      ← h.matching.target, hclosed, hreturned]
  | .fork test whole yes no, count, h => by
    have htest : c.Agree c' test.reads entry entry' := h.mono (List.subset_append_left _ _)
    have harms : c.Agree c' (yes.reads ++ no.reads) entry entry' :=
      h.mono (List.subset_append_right _ _)
    simp only [plainTrace, plainTerm, htest.plain (List.Subset.refl _), ← h.matching.options,
      ← h.matching.modifierName,
      Agree.trace hwritten yes _ (harms.mono (List.subset_append_left _ _)),
      Agree.trace hwritten no _ (harms.mono (List.subset_append_right _ _))]

end Context

/-! ### Updates -/

variable {m : Model} {options : Options} {u : UpdateId} {f : UpdateFunction} {q : PortId}
variable {t t' t₁ : SymbolTable}

/-- What a chain of names in a body reaches is accessed by the body. -/
theorem mem_accessedPorts {segments : List String} (hin : segments ∈ Node.readsOfList f.body)
    (hkey : (bodyContext m options u f).key? (.access segments) = some (.port q)) :
    q ∈ (accessedPorts m (m.update u).entity f).toList := by
  obtain ⟨r, hr, hport⟩ := Option.map_eq_some_iff.1 hkey
  obtain ⟨path, hpath, rfl⟩ := Option.map_eq_some_iff.1 hr
  have hresolved : m.resolvePortPath (m.update u).entity path = some q := by
    split at hport
    · next p hp =>
      cases hport
      exact hp
    · cases hport
  refine OrderedSet.mem_def.1 (OrderedSet.mem_ofList.2 (List.mem_filterMap.2 ⟨path, ?_, hresolved⟩))
  exact List.mem_filterMap.2 ⟨segments, hin, hpath⟩

/-- The ports that a body reads or writes. -/
def UsesPort (m : Model) (options : Options) (u : UpdateId) (f : UpdateFunction) (q : PortId) :
    Prop :=
  q ∈ (accessedPorts m (m.update u).entity f).toList ∨
    q ∈ (bodyContext m options u f).writtenPorts.toList

theorem plainBody_congr {entry entry' : Entry} (hstep : entry.stepName = entry'.stepName)
    (h : ∀ q, UsesPort m options u f q → (q ∈ entry.written ↔ q ∈ entry'.written)) :
    (bodyContext m options u f).plainBody entry f.body =
      (bodyContext m options u f).plainBody entry' f.body := by
  have hwritten : ∀ q ∈ (bodyContext m options u f).writtenPorts.toList,
      (bodyContext m options u f).EntersAlike (bodyContext m options u f) entry entry' q :=
    fun q hq => Context.entersAlike_of_written (h q (.inr hq))
  refine Context.Agree.trace hwritten _ _ ⟨.refl _, hstep, fun hin hkey => ?_⟩
  exact Context.entersAlike_of_written
    (h _ (.inl (mem_accessedPorts (Flow.reads_ofBody _ hin) hkey)))

/-- On a table with right handles an update is encoded to what its body becomes, or fails with the
error of its body. If it fails, no port is noted. -/
theorem encodeUpdate_cases (ht : (bodyContext m options u f).Settled t.entry { table := t }) :
    match (bodyContext m options u f).plainBody t.entry f.body with
    | .ok tr => ∃ t', encodeUpdate m options u f t =
        .ok ⟨tr.constraints, (OrderedSet.empty.insertAll (Flow.ofBody f.body).carried).toList⟩ t'
    | .error e => ∃ t', encodeUpdate m options u f t = .error e t' ∧ t'.written = t.written := by
  have hcomputes := Context.computes_sequence f.body ht
  cases hplain : (bodyContext m options u f).plainBody t.entry f.body with
  | error e =>
    rw [hplain] at hcomputes
    obtain ⟨q, hq, hfound⟩ := hcomputes
    have hbody : (updateContext m options u f).encodeBody f.body { table := t } = .error e q := by
      simp only [Context.encodeBody, bind, EStateM.bind]
      rw [show ((updateContext m options u f).forBody f.body).sequence f.body .empty
        { table := t } = .error e q from hq]
    exact ⟨q.table, by simp only [encodeUpdate, Encoder.alone, hbody],
      congrArg Entry.written hfound⟩
  | ok tr =>
    rw [hplain] at hcomputes
    obtain ⟨q, hq, -, hpassed⟩ := hcomputes
    simp only [← hpassed]
    exact ⟨_, Encoder.alone_ok.2 ⟨_, Stateful.bind_ok.2 ⟨_, q, hq, Stateful.bind_ok.2
      ⟨(), _, Stateful.modify_ok.2 rfl, rfl⟩⟩, rfl⟩⟩

theorem encodeUpdate_iff {r : BodyConstraints}
    (ht : (bodyContext m options u f).Settled t.entry { table := t }) :
    (∃ t', encodeUpdate m options u f t = .ok r t') ↔
      ∃ tr, (bodyContext m options u f).plainBody t.entry f.body = .ok tr ∧
        r = ⟨tr.constraints, (OrderedSet.empty.insertAll (Flow.ofBody f.body).carried).toList⟩ := by
  have hcases := encodeUpdate_cases ht
  cases hplain : (bodyContext m options u f).plainBody t.entry f.body with
  | error e =>
    rw [hplain] at hcases
    obtain ⟨t', ht', -⟩ := hcases
    simp [ht']
  | ok tr =>
    rw [hplain] at hcases
    obtain ⟨t', ht'⟩ := hcases
    simp [ht', eq_comm]

/-- **An update is encoded alike on tables that note alike the ports that its body uses.** -/
theorem encodeUpdate_agree {r : BodyConstraints}
    (ht : (bodyContext m options u f).Settled t.entry { table := t })
    (ht₁ : (bodyContext m options u f).Settled t₁.entry { table := t₁ })
    (hstep : t.stepName = t₁.stepName)
    (hports : ∀ q, UsesPort m options u f q → (q ∈ t.written ↔ q ∈ t₁.written))
    (h : encodeUpdate m options u f t = .ok r t') :
    ∃ t₁', encodeUpdate m options u f t₁ = .ok r t₁' := by
  have hplain : (bodyContext m options u f).plainBody t.entry f.body =
      (bodyContext m options u f).plainBody t₁.entry f.body := plainBody_congr hstep hports
  rw [encodeUpdate_iff ht₁, ← hplain]
  exact (encodeUpdate_iff ht).1 ⟨t', h⟩

/-! ### Influences -/

/-- A canonical table gives for a port what its version stands for. -/
theorem SymbolTable.Canonical.port_iff {v : Version} {term : Term} (hc : t.Canonical m) :
    (∃ t', t.port m q v = .ok (term, t')) ↔ SymbolTable.portTerm m q v = .ok term := by
  unfold SymbolTable.port
  cases hget : t.get? (.port q) v with
  | none => simp [Attempt.map_ok]
  | some term' =>
    have hfits : SymbolTable.portTerm m q v = .ok term' := hc.fits hget
    simp [hfits]

/-- On a canonical table an influence is encoded to the equation of what its ports stand for. -/
theorem encodeInfluence_iff {i : InfluenceId} {equation : Term} (hc : t.Canonical m) :
    (∃ t', encodeInfluence m i t = .ok equation t') ↔
      ∃ target source, SymbolTable.portTerm m (m.influence i).target .current = .ok target ∧
        SymbolTable.portTerm m (m.influence i).source
          (SymbolTable.entryVersion t.written (m.influence i).source) = .ok source ∧
        influenceEquation m i target source = .ok equation := by
  have hgrown : ∀ {target t₂}, t.port m (m.influence i).target .current = .ok (target, t₂) →
      t₂.Canonical m ∧ t₂.written = t.written := fun htarget =>
    have hgrows := (SymbolTable.port_ok htarget).1
    ⟨hc.grow hgrows fun _ _ _ => fits_of_portHandle, hgrows.written⟩
  constructor
  · rintro ⟨t', h⟩
    obtain ⟨target, source, t₂, t₃, htarget, hsource, hequation, -⟩ := encodeInfluence_ok h
    obtain ⟨hc₂, hwritten⟩ := hgrown htarget
    rw [← hwritten]
    exact ⟨target, source, hc.port_iff.1 ⟨t₂, htarget⟩, hc₂.port_iff.1 ⟨t₃, hsource⟩, hequation⟩
  · rintro ⟨target, source, htarget, hsource, hequation⟩
    obtain ⟨t₂, htarget⟩ := hc.port_iff.2 htarget
    obtain ⟨hc₂, hwritten⟩ := hgrown htarget
    rw [← hwritten] at hsource
    obtain ⟨t₃, hsource⟩ := hc₂.port_iff.2 hsource
    exact ⟨_, Stateful.bind_ok.2 ⟨target, t₂, Tabled.lift_ok.2 htarget, Stateful.bind_ok.2
      ⟨source, t₃, Tabled.lift_ok.2 hsource, Stateful.bind_ok.2 ⟨equation, t₃,
        Tabled.lift_ok.2 (Attempt.map_ok.2 ⟨equation, hequation, rfl⟩),
        Stateful.bind_ok.2 ⟨(), _, Stateful.modify_ok.2 rfl, rfl⟩⟩⟩⟩⟩

/-- An influence is encoded alike on tables that note its source alike. -/
theorem encodeInfluence_agree {i : InfluenceId} {equation : Term} (hc : t.Canonical m)
    (hc₁ : t₁.Canonical m)
    (hsource : (m.influence i).source ∈ t.written ↔ (m.influence i).source ∈ t₁.written)
    (h : encodeInfluence m i t = .ok equation t') :
    ∃ t₁', encodeInfluence m i t₁ = .ok equation t₁' := by
  have hversion : SymbolTable.entryVersion t.written (m.influence i).source =
      SymbolTable.entryVersion t₁.written (m.influence i).source := by
    simp only [SymbolTable.entryVersion, hsource]
  rw [encodeInfluence_iff hc₁, ← hversion]
  exact (encodeInfluence_iff hc).1 ⟨t', h⟩

end HybridStep
