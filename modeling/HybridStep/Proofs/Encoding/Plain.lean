import HybridStep.Proofs.Encoding.Traces

/-! # Encoding without a table

The table of symbols only remembers handles: what a body becomes depends on the name of the time
step, on the ports that earlier modifiers have written, and on the counts of writes. Here the
encoding is a function of these, with a parameter for how names are looked up, and it agrees with
the encoding on every table whose handles are what their keys and versions say. -/

namespace HybridStep

/-- What a body finds in a table: the name of the time step, and the ports that are written. -/
structure Entry where
  stepName : String
  written : OrderedSet PortId

/-- What a body finds in the table. -/
def SymbolTable.entry (t : SymbolTable) : Entry := ⟨t.stepName, t.written⟩

/-- How the names of a statement are looked up: a name or a chain of names in an expression, what
the target of an augmented assignment holds, the last version of a port, and the handle that a
target makes. -/
structure Lookup where
  leaf : Node → Except EncodingError Term
  held : Node → Except EncodingError Term
  latest : PortId → Except EncodingError Term
  made : Node → Except EncodingError (VarKey × Term)

namespace Context

/-! ### Handles -/

section

variable (c : Context) (entry : Entry) (count : VarKey → Nat)

/-- What a version of a name stands for. -/
def handle (key : VarKey) (v : Version) : Except EncodingError Term :=
  match key with
  | .port p => SymbolTable.portTerm c.model p v
  | .local name => .ok (.var ⟨symbolName name v c.modifier.text, c.sortOfLocal name⟩)

/-- What a name gives after given numbers of writes. -/
def reading (key : VarKey) : Except EncodingError Term :=
  c.handle key (readVersion entry.written key (count key))

/-- What a write of a name makes after given numbers of writes. -/
def writing (key : VarKey) : Except EncodingError Term := c.handle key (.index (count key + 1))

/-- The name that a node is. -/
def keyed (n : Node) : Except EncodingError VarKey :=
  match c.key? n with
  | some key => .ok key
  | none => .error (.unencodable n)

/-- The variable of the time step. -/
def stepVariable (entry : Entry) : Term := .var ⟨entry.stepName, .real⟩

/-- How the encoding looks names up. In an expression the name of the time step is its variable,
also when it has been written. -/
def asEncoded : Lookup where
  leaf n :=
    if c.isStep n then .ok (stepVariable entry)
    else do c.reading entry count (← c.keyed n)
  held n := do c.reading entry count (← c.keyed n)
  latest p := c.reading entry count (.port p)
  made n := do
    let key ← c.keyed n
    let handle ← c.writing count key
    return (key, handle)

end

/-! ### Expressions -/

mutual

/-- What an expression becomes. -/
def plain (leaf : Node → Except EncodingError Term) (hint : Option TermSort) :
    Node → Except EncodingError Operand
  | .literal value => literal hint value
  | .name n => (leaf (.name n)).map Operand.term
  | .access segments => (leaf (.access segments)).map Operand.term
  | .unary op operand =>
    match op with
    | .identity => plain leaf hint operand
    | op => do
      let operand ← (← plain leaf none operand).toTerm
      (encodeUnary op operand).map Operand.term
  | .binary op left right => do
    let left ← (← plain leaf none left).toTerm
    let right ← (← plain leaf none right).toTerm
    (encodeBinary op left right).map Operand.term
  | .logical op values => do (junction op (← plainTruths leaf values)).map Operand.term
  | .compare left ops others => do
    let left ← plain leaf none left
    let others ← plainAll leaf others
    (compared ops left others).map Operand.term
  | .choice test body orelse => do
    let cond ← (← plain leaf (some .bool) test).toTerm
    let yes ← plain leaf hint body
    let no ← plain leaf hint orelse
    (chosen cond yes no).map Operand.term
  | .unsupported text => .ok (.opaqueText text)
  | .assign targets value => .error (.unencodable (.assign targets value))
  | .augment target op value => .error (.unencodable (.augment target op value))
  | .branch test body orelse => .error (.unencodable (.branch test body orelse))
  | .ret value => .error (.unencodable (.ret value))
  | .block body => .error (.unencodable (.block body))

/-- What several expressions become. -/
def plainAll (leaf : Node → Except EncodingError Term) :
    List Node → Except EncodingError (List Operand)
  | [] => .ok []
  | n :: ns => do
    let first ← plain leaf none n
    let others ← plainAll leaf ns
    return first :: others

/-- What the operands of a junction become. -/
def plainTruths (leaf : Node → Except EncodingError Term) :
    List Node → Except EncodingError (List Term)
  | [] => .ok []
  | n :: ns => do
    let first ← (← plain leaf (some .bool) n).toTerm
    let others ← plainTruths leaf ns
    return first :: others

end

/-- What an expression becomes that has to be a term. -/
def plainTerm (leaf : Node → Except EncodingError Term) (hint : Option TermSort) (n : Node) :
    Except EncodingError Term := do (← plain leaf hint n).toTerm

/-! ### Statements -/

section

variable (c : Context) (look : Lookup)

/-- The handles that the targets of an assignment make. -/
def madeAll : List Node → Except EncodingError (List (VarKey × Term))
  | [] => .ok []
  | target :: targets => do
    let first ← look.made target
    let others ← madeAll targets
    return first :: others

/-- What a statement becomes that is neither a block nor an `if` nor a return. -/
def plainStatement : Node → Except EncodingError (List Term)
  | .assign targets value => do
    let handles ← madeAll look targets
    match ← plain look.leaf (handles.head?.map fun h => h.2.sort) value with
    | .opaqueText _ => return []
    | value => c.equateAll value handles
  | .augment target op value => do
    let current ← look.held target
    let operand ← plainTerm look.leaf none value
    let combined ← encodeBinary op current operand
    let made ← look.made target
    let equation ← c.equate made.2 made.1 (.term combined)
    return [equation]
  | .unsupported _ => .ok []
  | n => .error (.unencodable n)

/-- What the closing of ports becomes. -/
def plainClosing : List PortId → Except EncodingError (List Term)
  | [] => .ok []
  | p :: ps => do
    let current ← SymbolTable.portTerm c.model p .current
    let latest ← look.latest p
    let first ← closing current latest
    let others ← plainClosing ps
    return first ++ others

/-- What a return becomes. -/
def plainReturned (value : Option Node) : Except EncodingError (List Term) :=
  match c.target, value with
  | none, _ => .error (.returnWithoutTarget c.modifierName)
  | some _, none => .error (.emptyReturn c.modifierName)
  | some target, some value => do
    let handle ← SymbolTable.portTerm c.model target .current
    match ← plain look.leaf (some handle.sort) value with
    | .opaqueText _ => return []
    | value => do
      let equation ← c.equate handle (.port target) value
      return [equation]

/-- What the end of a path becomes: the closing of all ports that the body writes. -/
def plainDone : Except EncodingError (List Term) := plainClosing c look c.writtenPorts.toList

/-- What the end of a path with a return becomes. -/
def plainRet (value : Option Node) : Except EncodingError (List Term) := do
  let closed ← plainClosing c look (c.writtenPorts.toList.filter fun p => some p ≠ c.target)
  let written ← plainReturned c look value
  return closed ++ written

end

section

variable {c : Context} {look look' : Lookup}

theorem madeAll_congr (h : look.made = look'.made) (targets : List Node) :
    madeAll look targets = madeAll look' targets := by
  induction targets with
  | nil => rfl
  | cons target targets ih => rw [madeAll, madeAll, h, ih]

theorem plainClosing_congr : ∀ {ports : List PortId},
    (∀ q ∈ ports, look.latest q = look'.latest q) →
      plainClosing c look ports = plainClosing c look' ports
  | [], _ => rfl
  | q :: ports, h => by
    rw [plainClosing, plainClosing, h q List.mem_cons_self,
      plainClosing_congr fun q' hq' => h q' (List.mem_cons_of_mem _ hq')]

end

/-! ### Paths -/

/-- The numbers of writes after one more statement. -/
def after (c : Context) (count : VarKey → Nat) (n : Node) (key : VarKey) : Nat :=
  count key + if key ∈ c.writtenKeys n then 1 else 0

/-- What a flow becomes, as the tree of its writes. -/
def plainTrace (c : Context) (entry : Entry) : Flow → (VarKey → Nat) → Except EncodingError Trace
  | .done, count => (plainDone c (c.asEncoded entry count)).map .stop
  | .step n rest, count => do
    let here ← plainStatement c (c.asEncoded entry count) n
    let there ← plainTrace c entry rest (c.after count n)
    return .step here there
  | .ret value, count => (plainRet c (c.asEncoded entry count) value).map .stop
  | .fork test whole yes no, count => do
    let cond ← plainTerm (c.asEncoded entry count).leaf (some .bool) test
    if !whole && c.options.missingElse = .reject then .error (.missingElse c.modifierName)
    let yes ← plainTrace c entry yes count
    let no ← plainTrace c entry no count
    let _ ← forked cond yes.constraints no.constraints
    return .fork cond yes no

theorem plainTrace_fork_ok {c : Context} {entry : Entry} {test : Node} {whole : Bool}
    {yes no : Flow} {count : VarKey → Nat} {tr : Trace}
    (h : plainTrace c entry (.fork test whole yes no) count = .ok tr) :
    ∃ cond yes' no', plainTerm (c.asEncoded entry count).leaf (some .bool) test = .ok cond ∧
      plainTrace c entry yes count = .ok yes' ∧ plainTrace c entry no count = .ok no' ∧
      tr = .fork cond yes' no' := by
  obtain ⟨cond, hcond, h⟩ := Attempt.bind_ok.1 h
  split at h
  · cases h
  obtain ⟨yes', hyes, h⟩ := Attempt.bind_ok.1 h
  obtain ⟨no', hno, h⟩ := Attempt.bind_ok.1 h
  obtain ⟨_, -, h⟩ := Attempt.bind_ok.1 h
  cases h
  exact ⟨cond, yes', no', hcond, hyes, hno, rfl⟩

/-! ### Texts that are passed through -/

end Context

namespace Node

mutual

/-- The texts that an expression or a statement passes through. -/
def carried : Node → List String
  | unsupported text => [text]
  | unary _ operand => operand.carried
  | binary _ left right => left.carried ++ right.carried
  | logical _ values => carriedOfList values
  | compare left _ others => left.carried ++ carriedOfList others
  | choice test body orelse => test.carried ++ (body.carried ++ orelse.carried)
  | assign _ value => value.carried
  | augment _ _ value => value.carried
  | literal _ => []
  | name _ => []
  | access _ => []
  | branch _ _ _ => []
  | ret _ => []
  | block _ => []

/-- The texts that several expressions pass through. -/
def carriedOfList : List Node → List String
  | [] => []
  | n :: ns => n.carried ++ carriedOfList ns

end

end Node

/-- The texts that a flow passes through. -/
def Flow.carried : Flow → List String
  | done => []
  | step n rest => n.carried ++ rest.carried
  | ret value => (value.map Node.carried).getD []
  | fork test _ yes no => test.carried ++ (yes.carried ++ no.carried)

namespace Context

/-! ### Encodings that compute a result -/

variable {c : Context} {entry : Entry} {p : Progress} {α β : Type}

/-- The handles of a table are what a body would make, and the body finds in it what is expected. -/
structure Settled (c : Context) (entry : Entry) (p : Progress) : Prop where
  canonical : p.table.Canonical c.model
  sorted : c.SortedTable p.table
  found : p.table.entry = entry

/-- On every table an encoding gives the same result or the same error, and it passes the same
texts through. If it fails, a body would find in the table what it found before. -/
def Computes (c : Context) (entry : Entry) (x : Encoder α) (r : Except EncodingError α)
    (texts : List String) : Prop :=
  ∀ ⦃p⦄, c.Settled entry p →
    match r with
    | .ok a => ∃ p', x p = .ok a p' ∧ c.Settled entry p' ∧ p'.passed = p.passed.insertAll texts
    | .error e => ∃ p', x p = .error e p' ∧ p'.table.entry = entry

section

variable {x : Encoder α} {r : Except EncodingError α} {texts texts' : List String}
variable {f : α → Encoder β} {g : α → Except EncodingError β}

theorem Computes.pure (a : α) : c.Computes entry (pure a) (.ok a) [] :=
  fun p hp => ⟨p, rfl, hp, rfl⟩

theorem Computes.throw (e : EncodingError) :
    c.Computes entry (throw e : Encoder α) (.error e) texts := fun p hp => ⟨p, rfl, hp.found⟩

theorem Computes.lift (r : Except EncodingError α) : c.Computes entry (Encoder.lift r) r [] := by
  cases r with
  | ok a => exact .pure a
  | error e => exact .throw e

/-- A part whose result is computed with more than the encoding gives. -/
theorem Computes.bind_map {γ : Type} {r : Except EncodingError γ} {view : γ → α}
    {g : γ → Except EncodingError β} (hx : c.Computes entry x (view <$> r) texts)
    (hf : ∀ a, c.Computes entry (f (view a)) (g a) texts') :
    c.Computes entry (x >>= f) (r >>= g) (texts ++ texts') := fun p hp => by
  have h := hx hp
  cases r with
  | error e =>
    obtain ⟨q, hq, hfound⟩ := h
    exact ⟨q, by simp only [Bind.bind, EStateM.bind, hq], hfound⟩
  | ok a =>
    obtain ⟨q, hq, hsettled, hpassed⟩ := h
    have h' := hf a hsettled
    have heq : (x >>= f) p = f (view a) q := by simp only [Bind.bind, EStateM.bind, hq]
    change match g a with
      | .ok b => ∃ p', (x >>= f) p = .ok b p' ∧ c.Settled entry p' ∧
          p'.passed = p.passed.insertAll (texts ++ texts')
      | .error e => ∃ p', (x >>= f) p = .error e p' ∧ p'.table.entry = entry
    rw [heq]
    cases hg : g a with
    | error e =>
      rw [hg] at h'
      exact h'
    | ok b =>
      rw [hg] at h'
      obtain ⟨p', hp', hs, hpass⟩ := h'
      refine ⟨p', hp', hs, ?_⟩
      rw [hpass, hpassed, OrderedSet.insertAll, OrderedSet.insertAll, OrderedSet.insertAll,
        List.foldl_append]

theorem Computes.bind (hx : c.Computes entry x r texts)
    (hf : ∀ a, c.Computes entry (f a) (g a) texts') :
    c.Computes entry (x >>= f) (r >>= g) (texts ++ texts') := by
  have hid : c.Computes entry x (id <$> r) texts := by rwa [id_map]
  exact hid.bind_map hf

/-- What follows a part that passes no text through. -/
theorem Computes.quiet_bind (hx : c.Computes entry x r [])
    (hf : ∀ a, c.Computes entry (f a) (g a) texts) :
    c.Computes entry (x >>= f) (r >>= g) texts := hx.bind hf

/-- A part after which no text is passed through. -/
theorem Computes.bind_quiet (hx : c.Computes entry x r texts)
    (hf : ∀ a, c.Computes entry (f a) (g a) []) : c.Computes entry (x >>= f) (r >>= g) texts := by
  simpa using hx.bind hf

theorem Computes.map (hx : c.Computes entry x r texts) (f : α → β) :
    c.Computes entry (f <$> x) (r.map f) texts := fun p hp => by
  have h := hx hp
  cases r with
  | error e =>
    obtain ⟨q, hq, hfound⟩ := h
    exact ⟨q, by simp only [Functor.map, EStateM.map, hq], hfound⟩
  | ok a =>
    obtain ⟨q, hq, hs⟩ := h
    exact ⟨q, by simp only [Functor.map, EStateM.map, hq], hs⟩

end

/-! ### Handles are what they stand for -/

theorem sort_of_handle {key : VarKey} {v : Version} {t : Term} (h : c.handle key v = .ok t) :
    t.sort = c.sortOfKey key := by
  cases key with
  | port q => exact SymbolTable.sort_of_portTerm h
  | «local» name =>
    cases h
    rfl

/-- A body makes for a name what its versions stand for. -/
theorem handle_of_makes {key : VarKey} {v : Version} {t : Term}
    (h : c.Makes (c.symbolKey key) v t) : c.handle key v = .ok t := by
  cases key with
  | port q => exact h
  | «local» name => rw [handle, h.2]

theorem Settled.grow {t : SymbolTable} (h : c.Settled entry p)
    (hg : SymbolTable.GrowsBy c.Makes p.table t) (passed : OrderedSet String) :
    c.Settled entry ⟨t, passed⟩ := by
  refine ⟨h.canonical.grow hg fun _ _ _ => fits_of_makes, fun key v term hget => ?_, ?_⟩
  · rcases hg.fresh hget with hold | hnew
    · exact h.sorted hold
    · exact sort_of_handle (handle_of_makes hnew)
  · rw [← h.found, SymbolTable.entry, SymbolTable.entry, hg.stepName, hg.written]

/-- A handle of the table is what its name and version stand for. -/
theorem Settled.handle (h : c.Settled entry p) {key : VarKey} {v : Version} {t : Term}
    (hget : p.table.get? (c.symbolKey key) v = some t) : c.handle key v = .ok t := by
  have hfits := h.canonical.fits hget
  cases key with
  | port q => exact hfits
  | «local» name =>
    obtain ⟨sort, rfl⟩ := hfits
    have hsort : sort = c.sortOfLocal name := h.sorted hget
    rw [hsort]
    rfl

theorem computes_port (q : PortId) (v : Version) :
    c.Computes entry (Encoder.onTable (·.port c.model q v)) (c.handle (.port q) v) [] :=
  fun p hp => by
  cases hget : p.table.get? (.port q) v with
  | some t =>
    have hterm : c.handle (.port q) v = .ok t := hp.handle hget
    rw [hterm]
    have hport : p.table.port c.model q v = .ok (t, p.table) := by rw [SymbolTable.port, hget]
    exact ⟨p, by simp only [Encoder.onTable, hport], hp, rfl⟩
  | none =>
    cases hterm : c.handle (.port q) v with
    | error e =>
      have hport : p.table.port c.model q v = .error e := by
        rw [SymbolTable.port, hget]
        exact congrArg (Except.map _) hterm
      exact ⟨p, by simp only [Encoder.onTable, hport], hp.found⟩
    | ok t =>
      have hport : p.table.port c.model q v = .ok (t, p.table.add (.port q) v t) := by
        rw [SymbolTable.port, hget]
        exact congrArg (Except.map _) hterm
      exact ⟨_, by simp only [Encoder.onTable, hport], hp.grow (.add hget hterm) _, rfl⟩

theorem computes_localHandle (name : String) (v : Version) :
    c.Computes entry (c.localHandle name v) (c.handle (.local name) v) [] := fun p hp => by
  cases hget : p.table.get? (.local name c.modifier) v with
  | some t =>
    have hterm : c.handle (.local name) v = .ok t := hp.handle hget
    rw [hterm]
    have hlocal : p.table.ofLocal name c.modifier v (c.sortOfLocal name) = (t, p.table) := by
      rw [SymbolTable.ofLocal, hget]
    exact ⟨p, by simp only [localHandle, Encoder.onTable, hlocal], hp, rfl⟩
  | none =>
    have hlocal : p.table.ofLocal name c.modifier v (c.sortOfLocal name) =
        (.var ⟨symbolName name v c.modifier.text, c.sortOfLocal name⟩,
          p.table.add (.local name c.modifier) v
            (.var ⟨symbolName name v c.modifier.text, c.sortOfLocal name⟩)) := by
      rw [SymbolTable.ofLocal, hget]
    exact ⟨_, by simp only [localHandle, Encoder.onTable, hlocal],
      hp.grow (.add hget ⟨rfl, rfl⟩) _, rfl⟩

variable {s : Scope}

theorem computes_readKey (key : VarKey) :
    c.Computes entry (c.readKey s key) (c.reading entry s.previous key) [] := by
  unfold readKey reading Scope.read
  generalize s.previous key = k
  cases key with
  | port q =>
    cases k with
    | succ k => exact computes_port q _
    | zero =>
      intro p hp
      have hwritten : entry.written = p.table.written := by rw [← hp.found]; rfl
      simp only [readVersion, hwritten]
      exact computes_port q (SymbolTable.entryVersion p.table.written q) hp
  | «local» name => cases k <;> exact computes_localHandle name _

theorem computes_writeKey (key : VarKey) :
    c.Computes entry (c.writeKey s key) (c.writing s.previous key) [] := by
  cases key with
  | port q => exact computes_port q _
  | «local» name => exact computes_localHandle name _

theorem computes_keyOf (n : Node) : c.Computes entry (c.keyOf n) (c.keyed n) [] := by
  unfold keyOf keyed
  cases c.key? n with
  | some key => exact .pure key
  | none => exact .throw _

theorem computes_leaf {n : Node} (h : c.isStep n = false) : c.Computes entry (c.readNode s n)
    ((c.asEncoded entry s.previous).leaf n) [] := by
  simp only [asEncoded, h]
  exact (computes_keyOf n).quiet_bind computes_readKey

theorem computes_readName (name : String) : c.Computes entry (c.readName s name)
    ((c.asEncoded entry s.previous).leaf (.name name)) [] := by
  unfold readName
  cases hstep : c.isStep (.name name) with
  | true =>
    intro p hp
    simp only [asEncoded, hstep, if_true]
    refine ⟨p, ?_, hp, rfl⟩
    rw [← hp.found]
    rfl
  | false => exact computes_leaf hstep

/-! ### The encoding computes what it should -/

mutual

/-- **An expression is encoded to what it becomes.** -/
theorem computes_expr (s : Scope) : (n : Node) → (hint : Option TermSort) →
    c.Computes entry (c.expr s hint n) (plain (c.asEncoded entry s.previous).leaf hint n) n.carried
  | .literal _, _ => .lift _
  | .name n, _ => (computes_readName n).map _
  | .access _, _ => (computes_leaf rfl).map _
  | .unary .identity operand, hint => computes_expr s operand hint
  | .unary .not operand, _ =>
    (computes_expr s operand none).bind_quiet fun _ => (Computes.lift _).quiet_bind fun _ =>
      (Computes.lift _).map _
  | .unary .neg operand, _ =>
    (computes_expr s operand none).bind_quiet fun _ => (Computes.lift _).quiet_bind fun _ =>
      (Computes.lift _).map _
  | .binary _ left right, _ =>
    (computes_expr s left none).bind fun _ => (Computes.lift _).quiet_bind fun _ =>
      (computes_expr s right none).bind_quiet fun _ => (Computes.lift _).quiet_bind fun _ =>
        (Computes.lift _).map _
  | .logical _ values, _ =>
    (computes_truths s values).bind_quiet fun _ => (Computes.lift _).map _
  | .compare left _ others, _ =>
    (computes_expr s left none).bind fun _ => (computes_exprs s others).bind_quiet fun _ =>
      (Computes.lift _).map _
  | .choice test body orelse, hint =>
    (computes_expr s test (some .bool)).bind fun _ => (Computes.lift _).quiet_bind fun _ =>
      (computes_expr s body hint).bind fun _ => (computes_expr s orelse hint).bind_quiet fun _ =>
        (Computes.lift _).map _
  | .unsupported _, _ => fun _ hp =>
    ⟨_, rfl, ⟨hp.canonical, hp.sorted, hp.found⟩, rfl⟩
  | .assign .., _ => .throw _
  | .augment .., _ => .throw _
  | .branch .., _ => .throw _
  | .ret _, _ => .throw _
  | .block _, _ => .throw _

theorem computes_exprs (s : Scope) : (ns : List Node) → c.Computes entry (c.exprs s ns)
    (plainAll (c.asEncoded entry s.previous).leaf ns) (Node.carriedOfList ns)
  | [] => .pure _
  | n :: ns =>
    (computes_expr s n none).bind fun _ => (computes_exprs s ns).bind_quiet fun _ => .pure _

theorem computes_truths (s : Scope) : (ns : List Node) → c.Computes entry (c.truths s ns)
    (plainTruths (c.asEncoded entry s.previous).leaf ns) (Node.carriedOfList ns)
  | [] => .pure _
  | n :: ns =>
    (computes_expr s n (some .bool)).bind fun _ => (Computes.lift _).quiet_bind fun _ =>
      (computes_truths s ns).bind_quiet fun _ => .pure _

end

theorem computes_term (hint : Option TermSort) (n : Node) : c.Computes entry (c.term s hint n)
    (plainTerm (c.asEncoded entry s.previous).leaf hint n) n.carried :=
  (computes_expr s n hint).bind_quiet fun _ => .lift _

/-- The handle of a target is made once its name is known. -/
theorem made_bind (count : VarKey → Nat) (n : Node) (k : VarKey × Term → Except EncodingError β) :
    ((c.asEncoded entry count).made n >>= k) =
      c.keyed n >>= fun key => c.writing count key >>= fun handle => k (key, handle) := by
  simp [asEncoded]

theorem computes_targetHandles : (targets : List Node) → c.Computes entry
    (c.targetHandles s targets) (madeAll (c.asEncoded entry s.previous) targets) []
  | [] => .pure _
  | target :: targets => by
    rw [madeAll, made_bind]
    exact (computes_keyOf target).quiet_bind fun key => (computes_writeKey key).quiet_bind fun _ =>
      (computes_targetHandles targets).quiet_bind fun _ => .pure _

theorem computes_augment (target : Node) (op : BinaryOp) (value : Node) :
    c.Computes entry (c.statement s (.augment target op value))
      (plainStatement c (c.asEncoded entry s.previous) (.augment target op value))
      value.carried := by
  cases hkey : c.key? target with
  | none =>
    have hkeyOf : c.keyOf target = throw (.unencodable target) := by rw [keyOf, hkey]
    have hkeyed : c.keyed target = .error (.unencodable target) := by rw [keyed, hkey]
    intro p hp
    simp only [statement, plainStatement, asEncoded, hkeyed, hkeyOf]
    exact ⟨p, rfl, hp.found⟩
  | some key =>
    have hkeyOf : c.keyOf target = pure key := by rw [keyOf, hkey]
    have hkeyed : c.keyed target = .ok key := by rw [keyed, hkey]
    have hheld : (c.asEncoded entry s.previous).held target =
        c.reading entry s.previous key := by
      simp only [asEncoded, hkeyed]
      rfl
    simp only [statement, plainStatement, hheld, made_bind, hkeyed, hkeyOf, pure_bind]
    exact (computes_readKey key).quiet_bind fun _ => (computes_term none value).bind_quiet fun _ =>
      (Computes.lift _).quiet_bind fun _ => (computes_writeKey key).quiet_bind fun _ =>
        (Computes.lift _).quiet_bind fun _ => .pure _

theorem computes_statement (n : Node) : c.Computes entry (c.statement s n)
    (plainStatement c (c.asEncoded entry s.previous) n) n.carried := by
  cases n <;> try exact .throw _
  case assign targets value =>
    refine (computes_targetHandles targets).quiet_bind fun handles => ?_
    refine (computes_expr s value _).bind_quiet fun o => ?_
    cases o with
    | opaqueText => exact .pure _
    | term | tag => exact .lift _
  case augment target op value => exact computes_augment target op value
  case unsupported text => exact fun _ hp => ⟨_, rfl, ⟨hp.canonical, hp.sorted, hp.found⟩, rfl⟩

/-! ### Ends of paths -/

theorem computes_closePorts : (ps : List PortId) → c.Computes entry (c.closePorts s ps)
    (plainClosing c (c.asEncoded entry s.previous) ps) []
  | [] => .pure _
  | p :: ps =>
    (computes_port p .current).quiet_bind fun _ => (computes_readKey (.port p)).quiet_bind fun _ =>
      (Computes.lift _).quiet_bind fun _ => (computes_closePorts ps).quiet_bind fun _ => .pure _

theorem computes_returned (value : Option Node) : c.Computes entry (c.returned s value)
    (plainReturned c (c.asEncoded entry s.previous) value)
    ((value.map Node.carried).getD []) := by
  unfold returned plainReturned
  rcases c.target with _ | target
  · exact .throw _
  rcases value with _ | value
  · exact .throw _
  refine (computes_port target .current).quiet_bind fun _ => ?_
  refine (computes_expr s value _).bind_quiet fun o => ?_
  cases o with
  | opaqueText => exact .pure _
  | term | tag => exact (Computes.lift _).quiet_bind fun _ => .pure _

/-! ### Paths -/

theorem computes_choice (cond : Term) (yes no : Trace) :
    c.Computes entry (do
        let choice ← Encoder.lift (forked cond yes.constraints no.constraints)
        return [choice])
      (do
        let _ ← forked cond yes.constraints no.constraints
        return (Trace.fork cond yes no).constraints) [] := by
  cases h : forked cond yes.constraints no.constraints with
  | error e => exact fun p hp => ⟨p, rfl, hp.found⟩
  | ok choice =>
    rw [Trace.constraints, ← forked_eq h]
    exact fun p hp => ⟨p, rfl, hp, rfl⟩

/-- **A flow is encoded to the constraints of its tree of writes.** -/
theorem computes_paths : (fl : Flow) → ∀ {s : Scope}, c.At s fl.straight →
    c.Computes entry (c.paths fl s) (Trace.constraints <$> plainTrace c entry fl s.previous)
      fl.carried
  | .done, s, _ => by
    have hstop : Trace.constraints <$> plainTrace c entry .done s.previous =
        plainDone c (c.asEncoded entry s.previous) := by
      rw [plainTrace]
      cases plainDone c (c.asEncoded entry s.previous) <;> rfl
    rw [hstop]
    exact computes_closePorts _
  | .step n rest, s, hat => by
    have hnext : c.after s.previous n = Scope.previous { s with position := s.position + 1 } :=
      funext fun key => (hat.previous_next key).symm
    simp only [paths, plainTrace, map_bind, map_pure, Trace.constraints]
    refine (computes_statement n).bind fun here => ?_
    rw [hnext]
    rw [← List.append_nil rest.carried]
    exact (computes_paths rest hat.next).bind_map fun _ => .pure _
  | .ret value, s, _ => by
    have hstop : Trace.constraints <$> plainTrace c entry (.ret value) s.previous =
        plainRet c (c.asEncoded entry s.previous) value := by
      rw [plainTrace]
      cases plainRet c (c.asEncoded entry s.previous) value <;> rfl
    rw [hstop]
    exact (computes_closePorts _).quiet_bind fun _ => (computes_returned value).bind_quiet fun _ =>
      .pure _
  | .fork test whole yes no, s, _ => by
    have harm : ∀ arm : Flow, arm = yes ∨ arm = no → c.Computes entry
        (c.paths arm (c.scope arm.straight s.versions))
        (Trace.constraints <$> plainTrace c entry arm s.previous) arm.carried := by
      rintro arm (rfl | rfl)
      · exact previous_scope_versions arm.straight s ▸ computes_paths arm (at_scope _ s.versions)
      · exact previous_scope_versions arm.straight s ▸ computes_paths arm (at_scope _ s.versions)
    simp only [paths, plainTrace, map_bind]
    refine (computes_term (some .bool) test).bind fun cond => ?_
    split
    · exact fun p hp => ⟨p, rfl, hp.found⟩
    · simp only [map_bind, map_pure]
      refine (harm yes (.inl rfl)).bind_map fun yes' => ?_
      rw [← List.append_nil no.carried]
      exact (harm no (.inr rfl)).bind_map fun no' => computes_choice cond yes' no'

/-- What a body becomes. -/
def plainBody (c : Context) (entry : Entry) (body : List Node) : Except EncodingError Trace :=
  plainTrace c entry (.ofBody body) fun _ => 0

theorem computes_sequence (body : List Node) : c.Computes entry (c.sequence body .empty)
    (Trace.constraints <$> plainBody c entry body) (Flow.ofBody body).carried := by
  have hzero : (c.scope (Flow.ofBody body).straight .empty).previous = fun _ => 0 :=
    funext fun key => by
      rw [previous_scope]
      rfl
  rw [plainBody, ← hzero]
  exact computes_paths _ (at_scope _ _)

end Context

/-! ### Bodies of updates -/

variable {m : Model} {options : Options} {u : UpdateId} {f : UpdateFunction} {t t' : SymbolTable}

/-- What an earlier modifier leaves suits the body of an update. -/
theorem Tidy.settled (h : Tidy m (.update u) t) :
    (bodyContext m options u f).Settled t.entry { table := t } := by
  refine ⟨h.canonical, fun key v term hget => ?_, rfl⟩
  cases key with
  | port q => exact SymbolTable.sort_of_portTerm (h.canonical.fits hget)
  | «local» name => cases hget.symm.trans h.spares

/-- **An update is encoded to what its body becomes.** -/
theorem plainBody_of_encodeUpdate {r : BodyConstraints} (ht : Tidy m (.update u) t)
    (h : encodeUpdate m options u f t = .ok r t') :
    ∃ tr, (bodyContext m options u f).plainBody t.entry f.body = .ok tr ∧
      tr.constraints = r.constraints := by
  obtain ⟨q, hq, -⟩ := encodeUpdate_ok h
  have hsettled : (bodyContext m options u f).Settled t.entry { table := t } := ht.settled
  have hcomputes := Context.computes_sequence f.body hsettled
  cases hplain : (bodyContext m options u f).plainBody t.entry f.body with
  | error e =>
    rw [hplain] at hcomputes
    obtain ⟨q', hq', -⟩ := hcomputes
    rw [hq] at hq'
    cases hq'
  | ok tr =>
    rw [hplain] at hcomputes
    obtain ⟨q', hq', -⟩ := hcomputes
    rw [hq] at hq'
    exact ⟨tr, rfl, (EStateM.Result.ok.inj hq').1.symm⟩

end HybridStep
