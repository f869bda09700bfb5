import HybridStep.Smt.Combinator

/-! # Constructions

The calls of the checked combinators, the sorts that each operator takes and gives, and the terms
whose sorts fit throughout. A construction succeeds exactly if the sorts of its operands are such
sorts, and then gives the application of its operator, a constant folded from constants, or a real
operand that needs no widening. -/

namespace HybridStep

/-! ### Sorts that fit -/

/-- The binary operators of arithmetic. -/
def Operator.isArithmetic : Operator → Bool
  | add | sub | mul | div | intDiv | mod | pow => true
  | _ => false

/-- The operators that compare. -/
def Operator.isComparison : Operator → Bool
  | lt | le | gt | ge | eq | distinct => true
  | _ => false

/-- The sorts that an operator takes, and the sort that it gives on them. -/
inductive Operator.Signature : Operator → List TermSort → TermSort → Prop
  | eq (s : TermSort) : Signature .eq [s, s] .bool
  | distinct (s : TermSort) : Signature .distinct [s, s] .bool
  | and {ss : List TermSort} : (∀ s ∈ ss, s = .bool) → Signature .and ss .bool
  | or {ss : List TermSort} : (∀ s ∈ ss, s = .bool) → Signature .or ss .bool
  | not : Signature .not [.bool] .bool
  | xor : Signature .xor [.bool, .bool] .bool
  | ite (s : TermSort) : Signature .ite [.bool, s, s] s
  | toReal : Signature .toReal [.int] .real
  | neg {s : TermSort} : s.isNumeric → Signature .neg [s] s
  | add {s : TermSort} : s.isNumeric → Signature .add [s, s] s
  | sub {s : TermSort} : s.isNumeric → Signature .sub [s, s] s
  | mul {s : TermSort} : s.isNumeric → Signature .mul [s, s] s
  | pow {s : TermSort} : s.isNumeric → Signature .pow [s, s] s
  | div : Signature .div [.real, .real] .real
  | intDiv : Signature .intDiv [.int, .int] .int
  | mod : Signature .mod [.int, .int] .int
  | order {op : Operator} {s : TermSort} : op.isOrdering → s.isNumeric → Signature op [s, s] .bool

section

variable {a b d s : TermSort}

theorem Operator.Signature.sorts_eq (h : Signature .eq [a, b] s) : a = b := by
  cases h with
  | eq => rfl
  | order hop => cases hop

theorem Operator.Signature.sort_not (h : Signature .not [a] s) : a = .bool := by
  cases h
  rfl

theorem Operator.Signature.sorts_xor (h : Signature .xor [a, b] s) : a = .bool ∧ b = .bool := by
  cases h with
  | xor => exact ⟨rfl, rfl⟩
  | order hop => cases hop

theorem Operator.Signature.sorts_ite (h : Signature .ite [a, b, d] s) : a = .bool ∧ b = d := by
  cases h
  exact ⟨rfl, rfl⟩

theorem Operator.Signature.sort_toReal (h : Signature .toReal [a] s) : a = .int := by
  cases h
  rfl

theorem Operator.Signature.isNumeric_neg (h : Signature .neg [a] s) : a.isNumeric := by
  cases h with
  | neg ha => exact ha

end

/-- An operator gives one sort on the sorts of its operands. -/
theorem Operator.Signature.unique {op : Operator} {ss : List TermSort} {s s' : TermSort}
    (h : op.Signature ss s) (h' : op.Signature ss s') : s = s' := by
  cases h <;> cases h' <;> first
    | rfl
    | simp_all [Operator.isOrdering]

theorem Operator.Signature.bools {op : Operator} {ss : List TermSort} {s : TermSort}
    (h : op.Signature ss s) (hop : op = .and ∨ op = .or) : ∀ s ∈ ss, s = .bool := by
  cases h with
  | and hss | or hss => exact hss
  | order h => rcases hop with rfl | rfl <;> cases h
  | _ => simp at hop

namespace Term

/-- The sorts fit throughout the term, and the tags in it are there. -/
inductive WellSorted : Term → Prop
  | const {c : Constant} : (∀ e i, c = .tag e i → i < e.variants.length) → WellSorted (const c)
  | var (v : Variable) : WellSorted (var v)
  | app {op : Operator} {ts : List Term} {s : TermSort} : (∀ t ∈ ts, t.WellSorted) →
    op.Signature (ts.map sort) s → WellSorted (app op ts s)

theorem wellSorted_int (n : Word) : (int n).WellSorted := .const nofun

theorem wellSorted_real (q : Rat) : (real q).WellSorted := .const nofun

end Term

/-! ### The checked combinators -/

/-- A call of a checked combinator. -/
inductive Construction where
  | eq (lhs rhs : Term)
  | and (ts : List Term)
  | or (ts : List Term)
  | not (t : Term)
  | xor (lhs rhs : Term)
  | ite (cond yes no : Term)
  | toReal (t : Term)
  | neg (t : Term)
  | arith (op : Operator) (lhs rhs : Term)
  | compare (op : Operator) (lhs rhs : Term)

namespace Construction

/-- What a combinator is called on. -/
def operands : Construction → List Term
  | eq l r | xor l r | arith _ l r | compare _ l r => [l, r]
  | and ts | or ts => ts
  | not t | toReal t | neg t => [t]
  | ite c yes no => [c, yes, no]

/-- The operator of which a combinator builds applications. -/
def operator : Construction → Operator
  | eq .. => .eq
  | and _ => .and
  | or _ => .or
  | not _ => .not
  | xor .. => .xor
  | ite .. => .ite
  | toReal _ => .toReal
  | neg _ => .neg
  | arith op .. | compare op .. => op

/-- What a combinator gives. -/
def build : Construction → Except SortMismatch Term
  | eq l r => Term.mkEq l r
  | and ts => Term.mkAnd ts
  | or ts => Term.mkOr ts
  | not t => Term.mkNot t
  | xor l r => Term.mkXor l r
  | ite c yes no => Term.mkIte c yes no
  | toReal t => Term.mkToReal t
  | neg t => Term.mkNeg t
  | arith op l r => Term.mkArith op l r
  | compare op l r => Term.mkCompare op l r

/-- A combinator takes what its operator takes. The combinators for arithmetic and comparison know
only operators of their kind, and widening lets reals pass. -/
def Accepts (c : Construction) (s : TermSort) : Prop :=
  match c with
  | arith op l r => op.isArithmetic ∧ op.Signature [l.sort, r.sort] s
  | compare op l r => op.isComparison ∧ op.Signature [l.sort, r.sort] s
  | toReal t => s = .real ∧ (t.sort = .real ∨ Operator.Signature .toReal [t.sort] .real)
  | c => c.operator.Signature (c.operands.map Term.sort) s

end Construction

namespace Term

variable {op : Operator} {l r t : Term} {ts : List Term} {s : TermSort}

theorem signature_of_takesArith (h : takesArith op s) :
    op.isArithmetic ∧ op.Signature [s, s] s := by
  cases op <;> simp only [takesArith, reduceCtorEq] at h
  · exact ⟨rfl, .add h⟩
  · exact ⟨rfl, .sub h⟩
  · exact ⟨rfl, .mul h⟩
  · exact of_decide_eq_true h ▸ ⟨rfl, .div⟩
  · exact of_decide_eq_true h ▸ ⟨rfl, .intDiv⟩
  · exact of_decide_eq_true h ▸ ⟨rfl, .mod⟩
  · exact ⟨rfl, .pow h⟩

theorem takesArith_of_signature {a b : TermSort} (hop : op.isArithmetic)
    (h : op.Signature [a, b] s) : a = b ∧ takesArith op a := by
  cases h <;> simp_all [Operator.isArithmetic, takesArith, Operator.isOrdering]
  all_goals cases op <;> simp_all

theorem signature_of_takesCompare (h : takesCompare op s) :
    op.isComparison ∧ op.Signature [s, s] .bool := by
  cases op <;> simp only [takesCompare, reduceCtorEq] at h
  case eq => exact ⟨rfl, .eq s⟩
  case distinct => exact ⟨rfl, .distinct s⟩
  all_goals exact ⟨rfl, .order rfl h⟩

theorem takesCompare_of_signature {a b : TermSort} (hop : op.isComparison)
    (h : op.Signature [a, b] s) : a = b ∧ takesCompare op a := by
  cases h <;> simp_all [Operator.isComparison, takesCompare, Operator.isOrdering]
  all_goals cases op <;> simp_all

theorem mem_bool_of_find? (h : ts.find? (fun t => t.sort ≠ .bool) = none) :
    ∀ s ∈ ts.map sort, s = .bool := by
  rintro _ hs
  obtain ⟨t, ht, rfl⟩ := List.mem_map.1 hs
  simpa using List.find?_eq_none.1 h t ht

end Term

/-! ### What constructions give -/

namespace Construction

variable {c : Construction} {t : Term} {s : TermSort}

theorem Accepts.unique {s' : TermSort} (h : c.Accepts s) (h' : c.Accepts s') : s = s' := by
  cases c with
  | toReal x => exact h.1.trans h'.1.symm
  | arith | compare => exact h.2.unique h'.2
  | _ => exact Operator.Signature.unique h h'

/-- A number or truth value that is folded from constants. -/
structure Folded (c : Construction) (t : Term) : Prop where
  constants : ∀ x ∈ c.operands, x.isConstant
  result : ∃ k, t = .const k ∧ ∀ e i, k ≠ .tag e i

theorem Folded.isConstant (h : c.Folded t) : t.isConstant := by
  obtain ⟨-, k, rfl, -⟩ := h
  rfl

theorem Folded.wellSorted (h : c.Folded t) : t.WellSorted := by
  obtain ⟨-, k, rfl, hk⟩ := h
  exact .const fun e i hi => absurd hi (hk e i)

theorem folded_int {n : Word} (h : ∀ x ∈ c.operands, x.isConstant) : c.Folded (.int n) :=
  ⟨h, _, rfl, nofun⟩

theorem folded_real {q : Rat} (h : ∀ x ∈ c.operands, x.isConstant) : c.Folded (.real q) :=
  ⟨h, _, rfl, nofun⟩

theorem folded_bool {b : Bool} (h : ∀ x ∈ c.operands, x.isConstant) : c.Folded (.bool b) :=
  ⟨h, _, rfl, nofun⟩

/-- The three kinds of results: applications, folded constants, and reals that are not widened. -/
inductive Gives (c : Construction) : Term → Prop
  | app {s : TermSort} : c.operator.Signature (c.operands.map Term.sort) s →
    Gives c (.app c.operator c.operands s)
  | folded {t : Term} : c.Folded t → Gives c t
  | same {t : Term} : c = .toReal t → Gives c t

theorem junction_ok {op : Operator} {unit : Bool} {ts : List Term}
    (h : Term.mkJunction op unit ts = .ok t) : (∀ s ∈ ts.map Term.sort, s = .bool) ∧
      t.sort = .bool ∧ (t = .app op ts .bool ∨ ts = [] ∧ t = .bool unit) := by
  unfold Term.mkJunction at h
  split at h
  · cases h
  · next hf =>
    cases h
    cases ts with
    | nil => exact ⟨nofun, rfl, .inr ⟨rfl, rfl⟩⟩
    | cons x xs => exact ⟨Term.mem_bool_of_find? hf, rfl, .inl rfl⟩

theorem eq_ok {l r : Term} (h : Term.mkEq l r = .ok t) :
    Accepts (.eq l r) t.sort ∧ Gives (.eq l r) t := by
  unfold Term.mkEq at h
  split at h
  · next hs =>
    cases h
    have hsig : Operator.Signature .eq [l.sort, r.sort] .bool := hs ▸ .eq _
    exact ⟨hsig, .app hsig⟩
  · cases h

theorem not_ok {x : Term} (h : Term.mkNot x = .ok t) :
    Accepts (.not x) t.sort ∧ Gives (.not x) t := by
  unfold Term.mkNot at h
  split at h
  · cases h
    exact ⟨.not, .folded (folded_bool (List.forall_mem_singleton.2 rfl))⟩
  · split at h
    · next hs =>
      cases h
      have hsig : Operator.Signature .not [x.sort] .bool := hs ▸ .not
      exact ⟨hsig, .app hsig⟩
    · cases h

theorem xor_ok {l r : Term} (h : Term.mkXor l r = .ok t) :
    Accepts (.xor l r) t.sort ∧ Gives (.xor l r) t := by
  unfold Term.mkXor at h
  split at h
  · next hs =>
    have hsig : Operator.Signature .xor [l.sort, r.sort] .bool := by
      rw [hs.1, hs.2]
      exact .xor
    split at h <;> cases h
    · exact ⟨hsig, .folded (folded_bool (by simp [operands, Term.isConstant]))⟩
    · exact ⟨hsig, .app hsig⟩
  · cases h

theorem ite_ok {x yes no : Term} (h : Term.mkIte x yes no = .ok t) :
    Accepts (.ite x yes no) t.sort ∧ Gives (.ite x yes no) t := by
  unfold Term.mkIte at h
  split at h
  · next hs =>
    cases h
    have hsig : Operator.Signature .ite [x.sort, yes.sort, no.sort] yes.sort :=
      hs.1 ▸ hs.2 ▸ .ite _
    exact ⟨hsig, .app hsig⟩
  · cases h

theorem toReal_ok {x : Term} (h : Term.mkToReal x = .ok t) :
    Accepts (.toReal x) t.sort ∧ Gives (.toReal x) t := by
  unfold Term.mkToReal at h
  split at h
  · cases h
    exact ⟨⟨rfl, .inr .toReal⟩, .folded (folded_real (List.forall_mem_singleton.2 rfl))⟩
  · split at h
    · next hs =>
      cases h
      exact ⟨⟨hs, .inl hs⟩, .same rfl⟩
    · next hs =>
      cases h
      have hsig : Operator.Signature .toReal [x.sort] .real := hs ▸ .toReal
      exact ⟨⟨rfl, .inr hsig⟩, .app hsig⟩
    · cases h

theorem neg_ok {x : Term} (h : Term.mkNeg x = .ok t) :
    Accepts (.neg x) t.sort ∧ Gives (.neg x) t := by
  unfold Term.mkNeg at h
  split at h
  · cases h
    split
    · exact ⟨.neg rfl, .folded (folded_int (List.forall_mem_singleton.2 rfl))⟩
    · exact ⟨.neg rfl, .app (.neg rfl)⟩
  · cases h
    exact ⟨.neg rfl, .folded (folded_real (List.forall_mem_singleton.2 rfl))⟩
  · split at h
    · next hs =>
      cases h
      exact ⟨.neg hs, .app (.neg hs)⟩
    · cases h

theorem gives_foldArith {op : Operator} {l r : Term} (h : Term.foldArith op l r = some t) :
    Gives (.arith op l r) t ∧ t.sort = l.sort := by
  unfold Term.foldArith at h
  split at h
  · obtain ⟨n, -, rfl⟩ := Option.map_eq_some_iff.1 h
    exact ⟨.folded (folded_int (by simp [operands, Term.isConstant])), rfl⟩
  · obtain ⟨q, -, rfl⟩ := Option.map_eq_some_iff.1 h
    exact ⟨.folded (folded_real (by simp [operands, Term.isConstant])), rfl⟩
  · cases h

theorem arith_ok {op : Operator} {l r : Term} (h : Term.mkArith op l r = .ok t) :
    Accepts (.arith op l r) t.sort ∧ Gives (.arith op l r) t := by
  unfold Term.mkArith at h
  split at h
  · next hs =>
    have hsig : Accepts (.arith op l r) l.sort := by
      simp only [Accepts, ← hs.1]
      exact Term.signature_of_takesArith hs.2
    cases h
    cases hf : Term.foldArith op l r with
    | none => exact ⟨hsig, .app hsig.2⟩
    | some k =>
      obtain ⟨hgives, hsort⟩ := gives_foldArith hf
      exact ⟨hsort ▸ hsig, hgives⟩
  · cases h

theorem constants_of_foldCompare {op : Operator} {l r : Term} {b : Bool}
    (h : Term.foldCompare op l r = some b) : l.isConstant ∧ r.isConstant := by
  unfold Term.foldCompare at h
  split at h
  all_goals first | exact ⟨rfl, rfl⟩ | cases h

theorem compare_ok {op : Operator} {l r : Term} (h : Term.mkCompare op l r = .ok t) :
    Accepts (.compare op l r) t.sort ∧ Gives (.compare op l r) t := by
  unfold Term.mkCompare at h
  split at h
  · next hs =>
    have hsig : Accepts (.compare op l r) .bool := by
      simp only [Accepts, ← hs.1]
      exact Term.signature_of_takesCompare hs.2
    cases h
    cases hf : Term.foldCompare op l r with
    | none => exact ⟨hsig, .app hsig.2⟩
    | some b =>
      obtain ⟨hl, hr⟩ := constants_of_foldCompare hf
      exact ⟨hsig, .folded (folded_bool (by simp [operands, hl, hr]))⟩
  · cases h

/-- **What a construction gives.** The sort of the result is the one that the operator gives. -/
theorem build_ok (h : c.build = .ok t) : c.Accepts t.sort ∧ c.Gives t := by
  cases c with
  | eq l r => exact eq_ok h
  | and ts =>
    obtain ⟨hts, hs, rfl | ⟨rfl, rfl⟩⟩ := junction_ok h
    · exact ⟨.and hts, .app (.and hts)⟩
    · exact ⟨.and hts, .folded (folded_bool nofun)⟩
  | or ts =>
    obtain ⟨hts, hs, rfl | ⟨rfl, rfl⟩⟩ := junction_ok h
    · exact ⟨.or hts, .app (.or hts)⟩
    · exact ⟨.or hts, .folded (folded_bool nofun)⟩
  | not x => exact not_ok h
  | xor l r => exact xor_ok h
  | ite x yes no => exact ite_ok h
  | toReal x => exact toReal_ok h
  | neg x => exact neg_ok h
  | arith op l r => exact arith_ok h
  | compare op l r => exact compare_ok h

/-! ### What constructions take -/

theorem exists_junction {op : Operator} {unit : Bool} {ts : List Term}
    (h : ∀ s ∈ ts.map Term.sort, s = .bool) : ∃ t, Term.mkJunction op unit ts = .ok t := by
  have hf : ts.find? (fun t => t.sort ≠ .bool) = none :=
    List.find?_eq_none.2 fun t ht => by simpa using h _ (List.mem_map_of_mem ht)
  exact ⟨_, by rw [Term.mkJunction, hf]⟩

/-- **A construction that is accepted succeeds.** -/
theorem exists_build (h : c.Accepts s) : ∃ t, c.build = .ok t := by
  cases c with
  | eq l r => exact ⟨_, if_pos (Operator.Signature.sorts_eq h)⟩
  | and ts => exact exists_junction (Operator.Signature.bools h (.inl rfl))
  | or ts => exact exists_junction (Operator.Signature.bools h (.inr rfl))
  | not x =>
    simp only [build]
    unfold Term.mkNot
    split
    · exact ⟨_, rfl⟩
    · exact ⟨_, if_pos (Operator.Signature.sort_not h)⟩
  | xor l r =>
    simp only [build, Term.mkXor, if_pos (Operator.Signature.sorts_xor h)]
    split
    · exact ⟨_, rfl⟩
    · exact ⟨_, rfl⟩
  | ite x yes no => exact ⟨_, if_pos (Operator.Signature.sorts_ite h)⟩
  | toReal x =>
    simp only [build]
    unfold Term.mkToReal
    split
    · exact ⟨_, rfl⟩
    · rcases h.2 with hs | hs
      · simp only [hs]
        exact ⟨_, rfl⟩
      · simp only [hs.sort_toReal]
        exact ⟨_, rfl⟩
  | neg x =>
    simp only [build]
    unfold Term.mkNeg
    split
    · exact ⟨_, rfl⟩
    · exact ⟨_, rfl⟩
    · exact ⟨_, if_pos (Operator.Signature.isNumeric_neg h)⟩
  | arith op l r => exact ⟨_, if_pos (Term.takesArith_of_signature h.1 h.2)⟩
  | compare op l r => exact ⟨_, if_pos (Term.takesCompare_of_signature h.1 h.2)⟩

/-- What is built from well-sorted terms is well sorted. -/
theorem wellSorted_build (hops : ∀ x ∈ c.operands, x.WellSorted) (h : c.build = .ok t) :
    t.WellSorted := by
  obtain ⟨-, hgives⟩ := build_ok h
  cases hgives with
  | app hsig => exact .app hops hsig
  | folded hf => exact hf.wellSorted
  | same hc =>
    subst hc
    exact hops t List.mem_cons_self

/-- The second operand is a zero that the first one is divided by. -/
inductive DividesByZero : Construction → Prop
  | int {op : Operator} {l : Term} {n : Word} : op = .intDiv ∨ op = .mod → n.val = 0 →
    DividesByZero (.arith op l (.int n))
  | real {l : Term} : DividesByZero (.arith .div l (.real 0))

theorem not_foldArith_of_dividesByZero {op : Operator} {l r : Term}
    (hz : DividesByZero (.arith op l r)) : Term.foldArith op l r = none := by
  cases hz with
  | int hop hn =>
    unfold Term.foldArith
    split
    · next heq =>
      cases heq
      rcases hop with rfl | rfl <;> simp [Term.foldInt, Word.div?, Word.mod?, hn]
    · next heq => cases heq
    · rfl
  | real =>
    unfold Term.foldArith
    split
    · next heq => cases heq
    · next heq =>
      cases heq
      rfl
    · rfl

/-- **No division by zero is folded.** -/
theorem build_of_dividesByZero (hz : c.DividesByZero) (h : c.build = .ok t) :
    t = .app c.operator c.operands t.sort := by
  obtain ⟨op, l, r, rfl⟩ : ∃ op l r, c = .arith op l r := by cases hz <;> exact ⟨_, _, _, rfl⟩
  simp only [build, Term.mkArith, not_foldArith_of_dividesByZero hz] at h
  split at h
  · cases h
    rfl
  · cases h

end Construction

end HybridStep
