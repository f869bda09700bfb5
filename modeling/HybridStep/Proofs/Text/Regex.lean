import HybridStep.Text.Regex.Plain

/-! # What a regex engine documents

A text of pieces is well formed, and its regex is found in another text if the pieces match one
after the other from some position on: a character matches itself, the dot any character but the
line feed, a star any number of matches, an anchor the start or the end. An engine documents no more
than this about the pieces, that escaped texts stand for themselves, and that a regex can be too
big. `plain_documented`: the engine for plain regexes is one of these engines.

A table of matches is built from the last piece to the first; what it says of all positions is kept
by each kind of piece. -/

namespace HybridStep

/-- How a character that is compared with is written. -/
inductive Single.Written : Single → List Char → Prop
  | plain {c : Char} (h : c ∉ metaCharacters) : Written (.char c) [c]
  | escaped {c : Char} (h : c ∈ metaCharacters) : Written (.char c) ['\\', c]
  | dot : Written .dot ['.']

namespace Piece

/-- How pieces are written. -/
inductive Written : List Piece → List Char → Prop
  | nil : Written [] []
  | one {x : Single} {ps : List Piece} {form rest : List Char} (hx : x.Written form)
      (h : Written ps rest) : Written (one x :: ps) (form ++ rest)
  | many {x : Single} {ps : List Piece} {form rest : List Char} (hx : x.Written form)
      (h : Written ps rest) : Written (many x :: ps) (form ++ '*' :: rest)
  | start {ps : List Piece} {rest : List Char} (h : Written ps rest) :
      Written (start :: ps) ('^' :: rest)
  | finish {ps : List Piece} {rest : List Char} (h : Written ps rest) :
      Written (finish :: ps) ('$' :: rest)

/-- Pieces match, one after the other, from a position on: some text is done before it, and some
text is to do behind it. -/
def MatchesAt : List Piece → List Char → List Char → Prop
  | [], _, _ => True
  | one x :: ps, done, todo =>
    ∃ c rest, todo = c :: rest ∧ x.accepts c = true ∧ MatchesAt ps (done ++ [c]) rest
  | many x :: ps, done, todo =>
    ∃ run rest, todo = run ++ rest ∧ (∀ c ∈ run, x.accepts c = true) ∧
      MatchesAt ps (done ++ run) rest
  | start :: ps, done, todo => done = [] ∧ MatchesAt ps done todo
  | finish :: ps, done, todo => todo = [] ∧ MatchesAt ps done todo

/-- Pieces match from some position of a text on. -/
def FoundIn (ps : List Piece) (cs : List Char) : Prop :=
  ∃ done todo, cs = done ++ todo ∧ MatchesAt ps done todo

end Piece

/-- What an engine for regexes documents. Which regexes fit its limit is left to the engine.

* `escape`: an escaped text is written as its characters;
* `compile`: what is written as pieces and fits has a regex, which is found in a text if the pieces
  are;
* `tooBig`: what is written as pieces and does not fit is refused as too big. -/
structure RegexEngine.Documented (engine : RegexEngine) (fits : String → Prop) : Prop where
  escape (text : String) :
    Piece.Written (text.toList.map fun c => .one (.char c)) (engine.escape text).toList
  compile {ps : List Piece} {text : String} : Piece.Written ps text.toList → fits text →
    ∃ regex, engine.compile text = .ok regex ∧
      ∀ name, engine.isMatch regex name = true ↔ Piece.FoundIn ps name.toList
  tooBig {ps : List Piece} {text : String} : Piece.Written ps text.toList → ¬ fits text →
    ∃ limit, engine.compile text = .error (.tooBig limit)

namespace Piece

variable {ps ps' : List Piece} {x : Single} {cs cs' done todo : List Char}

theorem Written.append (h : Written ps cs) (h' : Written ps' cs') :
    Written (ps ++ ps') (cs ++ cs') := by
  induction h with
  | nil => exact h'
  | one hx _ ih =>
    rw [List.append_assoc]
    exact .one hx ih
  | many hx _ ih =>
    rw [List.append_assoc]
    exact .many hx ih
  | start _ ih => exact .start ih
  | finish _ ih => exact .finish ih

/-- Characters match if they are what comes next. -/
theorem matchesAt_chars {text : List Char} :
    MatchesAt (text.map (fun c => one (.char c)) ++ ps) done todo ↔
      ∃ rest, todo = text ++ rest ∧ MatchesAt ps (done ++ text) rest := by
  induction text generalizing done todo with
  | nil => simp
  | cons c text ih =>
    simp only [List.map_cons, List.cons_append, MatchesAt, ih, Single.accepts,
      decide_eq_true_eq, List.append_assoc, List.nil_append]
    constructor
    · rintro ⟨d, tail, rfl, rfl, rest, rfl, h⟩
      exact ⟨rest, rfl, h⟩
    · rintro ⟨rest, rfl, h⟩
      exact ⟨c, text ++ rest, rfl, rfl, rest, rfl, h⟩

/-- A repeated dot matches a text without a line feed. -/
theorem matchesAt_many_dot : MatchesAt (many .dot :: ps) done todo ↔
    ∃ gap rest, todo = gap ++ rest ∧ '\n' ∉ gap ∧ MatchesAt ps (done ++ gap) rest := by
  have hgap : ∀ gap : List Char, (∀ c ∈ gap, Single.accepts .dot c = true) ↔ '\n' ∉ gap := by
    intro gap
    simp only [Single.accepts, decide_eq_true_eq]
    exact ⟨fun h hmem => h _ hmem rfl, fun h c hc heq => h (heq ▸ hc)⟩
  simp only [MatchesAt, hgap]

/-! ### Reading pieces -/

theorem read?_char {c : Char} (h : c ∉ metaCharacters) :
    read? ps (c :: cs) = read? (one (.char c) :: ps) cs := by
  have hne : ∀ d ∈ metaCharacters, c ≠ d := fun d hd heq => h (heq ▸ hd)
  rw [read?, if_neg h]
  · exact fun _ _ hc _ => hne '\\' (by decide) hc
  · exact hne '.' (by decide)
  · exact hne '^' (by decide)
  · exact hne '$' (by decide)
  · exact fun _ _ _ => hne '*' (by decide)

theorem read?_single (h : x.Written cs) (rest : List Char) :
    read? ps (cs ++ rest) = read? (one x :: ps) rest := by
  cases h with
  | plain h => exact read?_char h
  | escaped h => rw [List.cons_append, List.cons_append, List.nil_append, read?, if_pos h]
  | dot => rw [List.cons_append, List.nil_append, read?]

/-- What is written as pieces is read as these pieces. -/
theorem read?_written (h : Written ps cs) (before : List Piece) :
    read? before cs = some (before.reverse ++ ps) := by
  induction h generalizing before with
  | nil => rw [read?, List.append_nil]
  | one hx _ ih => rw [read?_single hx, ih, List.reverse_cons, List.append_assoc]; rfl
  | many hx _ ih => rw [read?_single hx, read?, ih, List.reverse_cons, List.append_assoc]; rfl
  | start _ ih => rw [read?, ih, List.reverse_cons, List.append_assoc]; rfl
  | finish _ ih => rw [read?, ih, List.reverse_cons, List.append_assoc]; rfl

theorem written_escape (text : List Char) :
    Written (text.map fun c => one (.char c)) (text.flatMap escapeChar) := by
  induction text with
  | nil => exact .nil
  | cons c text ih =>
    rw [List.map_cons, List.flatMap_cons]
    refine .one ?_ ih
    unfold escapeChar
    by_cases h : c ∈ metaCharacters
    · rw [if_pos h]
      exact .escaped h
    · rw [if_neg h]
      exact .plain h

/-! ### The table -/

theorem atFinish_cons {m : Bool} {ms : List Bool} (h : ms ≠ []) :
    atFinish (m :: ms) = false :: atFinish ms := by
  cases ms with
  | nil => exact absurd rfl h
  | cons => rfl

/-- The table says of every position of a text whether it has the property. -/
inductive Marks (P : List Char → List Char → Prop) : List Char → List Bool → List Char → Prop
  | last {done : List Char} {m : Bool} (h : m = true ↔ P done []) : Marks P done [m] []
  | next {done : List Char} {m : Bool} {ms : List Bool} {c : Char} {cs : List Char}
      (h : m = true ↔ P done (c :: cs)) (rest : Marks P (done ++ [c]) ms cs) :
      Marks P done (m :: ms) (c :: cs)

namespace Marks

variable {P : List Char → List Char → Prop} {ms : List Bool}

/-- The first entry is about the first position. -/
theorem headD_iff (h : Marks P done ms cs) : ms.headD false = true ↔ P done cs := by
  cases h with
  | last h => exact h
  | next h => exact h

/-- Some entry is true if some position has the property. -/
theorem contains_iff (h : Marks P done ms cs) : ms.contains true = true ↔
    ∃ before todo, cs = before ++ todo ∧ P (done ++ before) todo := by
  induction h with
  | last h =>
    rw [List.contains_cons, List.contains_nil, Bool.or_false, beq_iff_eq, eq_comm, h]
    constructor
    · exact fun hP => ⟨[], [], rfl, by rwa [List.append_nil]⟩
    · rintro ⟨before, todo, heq, hP⟩
      obtain ⟨rfl, rfl⟩ := List.append_eq_nil_iff.1 heq.symm
      rwa [List.append_nil] at hP
  | @next done m ms c cs h _ ih =>
    rw [List.contains_cons, Bool.or_eq_true, beq_iff_eq, eq_comm, h, ih]
    constructor
    · rintro (hP | ⟨before, todo, rfl, hP⟩)
      · exact ⟨[], c :: cs, rfl, by rwa [List.append_nil]⟩
      · exact ⟨c :: before, todo, rfl, by rwa [List.append_assoc] at hP⟩
    · rintro ⟨before, todo, heq, hP⟩
      cases before with
      | nil =>
        rw [List.append_nil] at hP
        exact .inl (heq ▸ hP)
      | cons d before =>
        obtain ⟨rfl, rfl⟩ := List.cons.inj heq
        exact .inr ⟨before, todo, rfl, by rwa [List.append_assoc]⟩

/-- One character more. -/
theorem one (x : Single) (h : Marks P done ms cs) :
    Marks (fun done todo => ∃ c rest, todo = c :: rest ∧ x.accepts c = true ∧ P (done ++ [c]) rest)
      done (afterOne x ms cs) cs := by
  induction h with
  | last =>
    refine .last ⟨fun hfalse => absurd hfalse Bool.false_ne_true, ?_⟩
    rintro ⟨c, rest, heq, -⟩
    cases heq
  | next _ hrest ih =>
    refine .next ?_ ih
    rw [Bool.and_eq_true, hrest.headD_iff]
    constructor
    · rintro ⟨hc, hP⟩
      exact ⟨_, _, rfl, hc, hP⟩
    · rintro ⟨d, rest, heq, hd, hP⟩
      obtain ⟨rfl, rfl⟩ := List.cons.inj heq
      exact ⟨hd, hP⟩

/-- Any number of characters more: none, or one and then any number. -/
theorem many (x : Single) (h : Marks P done ms cs) :
    Marks (fun done todo => ∃ run rest, todo = run ++ rest ∧ (∀ c ∈ run, x.accepts c = true) ∧
      P (done ++ run) rest) done (afterMany x ms cs) cs := by
  induction h with
  | last h =>
    refine .last (h.trans ⟨fun hP => ⟨[], [], rfl, List.forall_mem_nil _, by simpa using hP⟩, ?_⟩)
    rintro ⟨run, rest, heq, -, hP⟩
    obtain ⟨rfl, rfl⟩ := List.append_eq_nil_iff.1 heq.symm
    simpa using hP
  | @next done m ms c cs h _ ih =>
    refine .next ?_ ih
    rw [Bool.or_eq_true, Bool.and_eq_true, h, ih.headD_iff]
    constructor
    · rintro (hP | ⟨hc, run, rest, rfl, hrun, hP⟩)
      · exact ⟨[], c :: cs, rfl, List.forall_mem_nil _, by simpa using hP⟩
      · exact ⟨c :: run, rest, rfl, List.forall_mem_cons.2 ⟨hc, hrun⟩, by simpa using hP⟩
    · rintro ⟨run, rest, heq, hrun, hP⟩
      cases run with
      | nil =>
        rw [List.append_nil] at hP
        exact .inl (heq ▸ hP)
      | cons d run =>
        obtain ⟨rfl, rfl⟩ := List.cons.inj heq
        rw [List.forall_mem_cons] at hrun
        exact .inr ⟨hrun.1, run, rest, rfl, hrun.2, by simpa using hP⟩

/-- Behind the first position nothing is at the start. -/
theorem not_start (h : Marks P done ms cs) (hdone : done ≠ []) :
    Marks (fun done todo => done = [] ∧ P done todo) done (ms.map fun _ => false) cs := by
  induction h with
  | last => exact .last ⟨fun hfalse => absurd hfalse Bool.false_ne_true, fun h => absurd h.1 hdone⟩
  | next _ _ ih =>
    refine .next ⟨fun hfalse => absurd hfalse Bool.false_ne_true, fun h => absurd h.1 hdone⟩ ?_
    exact ih (by simp)

theorem start (h : Marks P [] ms cs) :
    Marks (fun done todo => done = [] ∧ P done todo) [] (atStart ms) cs := by
  cases h with
  | last h => exact .last (h.trans (and_iff_right rfl).symm)
  | next h rest => exact .next (h.trans (and_iff_right rfl).symm) (rest.not_start (by simp))

theorem ne_nil (h : Marks P done ms cs) : ms ≠ [] := by
  cases h <;> exact List.cons_ne_nil _ _

theorem finish (h : Marks P done ms cs) :
    Marks (fun done todo => todo = [] ∧ P done todo) done (atFinish ms) cs := by
  induction h with
  | last h => exact .last (h.trans (and_iff_right rfl).symm)
  | next _ rest ih =>
    rw [atFinish_cons rest.ne_nil]
    refine .next ⟨fun hfalse => absurd hfalse Bool.false_ne_true, ?_⟩ ih
    rintro ⟨hnil, -⟩
    cases hnil

end Marks

/-- **The table of a text marks the positions from which pieces match.** -/
theorem marks_table (cs : List Char) : ∀ ps, Marks (MatchesAt ps) [] (table cs ps) cs
  | [] => by
    have hall : ∀ done, Marks (MatchesAt []) done (true :: cs.map fun _ => true) cs := by
      induction cs with
      | nil => exact fun done => .last (iff_of_true rfl trivial)
      | cons c cs ih => exact fun done => .next (iff_of_true rfl trivial) (ih _)
    exact hall []
  | .one x :: ps => (marks_table cs ps).one x
  | .many x :: ps => (marks_table cs ps).many x
  | .start :: ps => (marks_table cs ps).start
  | .finish :: ps => (marks_table cs ps).finish

end Piece

/-- **The engine for plain regexes is as documented**, and every regex fits. -/
theorem plain_documented : RegexEngine.plain.Documented fun _ => True where
  escape text := by
    have htext : (RegexEngine.plain.escape text).toList =
        text.toList.flatMap Piece.escapeChar := String.toList_ofList
    rw [htext]
    exact Piece.written_escape text.toList
  compile {ps text} h _ := by
    refine ⟨ps, ?_, fun name => (Piece.marks_table name.toList ps).contains_iff⟩
    have hread : Piece.read? [] text.toList = some ps := Piece.read?_written h []
    simp only [RegexEngine.plain, hread]
  tooBig _ hfits := absurd trivial hfits

end HybridStep
