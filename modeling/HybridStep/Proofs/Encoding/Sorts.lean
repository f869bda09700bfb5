import HybridStep.Proofs.Encoding.Inference
import HybridStep.Proofs.Encoding.Plain
import HybridStep.Proofs.Smt.Construction

/-! # Sorts of expressions

The sort of an expression is told from the sorts of its names without encoding it. If the expression
becomes a term, then the term has this sort. Only of texts nothing is told, and they become variants
of an enumeration; so numbers and truth values are always of the sort that was told. -/

namespace HybridStep

namespace TermSort

variable {a b s : TermSort}

/-- Only numbers join to numbers. -/
theorem isNumeric_of_join? (h : a.join? b = some s) (hs : s.isNumeric) :
    a.isNumeric ∧ b.isNumeric := by
  rcases join?_cases h with ⟨rfl, rfl⟩ | ⟨ha, hb, -⟩
  · exact ⟨hs, hs⟩
  · exact ⟨ha, hb⟩

theorem not_enum_of_isNumeric (h : s.isNumeric) (e : EnumSort) : s ≠ .enum e := by
  rintro rfl
  cases h

end TermSort

/-- An operand is of the sort that was told of it. Of a text no sort is told, even if it becomes a
variant of an enumeration. -/
def Operand.Told (sort : Option TermSort) : Operand → Prop
  | .term t => sort = some t.sort ∨ sort = none ∧ ∃ e, t.sort = .enum e
  | .tag _ => sort = none
  | .opaqueText _ => sort = none

section

variable {o o' : Operand} {l r t : Term} {a b : Option TermSort}

theorem Operand.Told.toTerm (h : o.Told a) (ht : o.toTerm = .ok t) : (Operand.term t).Told a := by
  cases o with
  | term t' =>
    cases ht
    exact h
  | tag | opaqueText => cases ht

theorem Operand.Told.of_sort (h : (Operand.term l).Told a) (hs : t.sort = l.sort) :
    (Operand.term t).Told a := by
  rw [Operand.Told, hs]
  exact h

/-- What is not a variant of an enumeration has the sort that was told. -/
theorem Operand.Told.eq_some (h : (Operand.term t).Told a) (ht : ∀ e, t.sort ≠ .enum e) :
    a = some t.sort :=
  h.resolve_right fun ⟨_, e, he⟩ => ht e he

theorem Operand.Told.of_isNumeric (h : (Operand.term t).Told a) (ht : t.sort.isNumeric) :
    a = some t.sort :=
  h.eq_some (TermSort.not_enum_of_isNumeric ht)

/-- An operand of which a real was told, and which is not a text, is a real. -/
theorem Operand.Told.sort_eq {s : TermSort} (h : (Operand.term t).Told (some s)) : t.sort = s := by
  rcases h with h | ⟨h, -⟩
  · exact (Option.some.inj h).symm
  · cases h

/-! ### Operations -/

theorem sort_mkToReal (h : Term.mkToReal l = .ok t) : t.sort = .real :=
  (Construction.toReal_ok h).1.1

theorem sort_mkArith {op : Operator} (h : Term.mkArith op l r = .ok t) : t.sort = l.sort := by
  have haccepts : op.Signature [l.sort, r.sort] t.sort := (Construction.arith_ok h).1.2
  obtain ⟨hsame, htakes⟩ := Term.sort_operands_of_mkArith h
  rw [← hsame] at haccepts
  exact haccepts.unique (Term.signature_of_takesArith htakes).2

/-- Operands that have one sort once they are widened join to this sort. -/
theorem join?_of_widen {l' r' : Term} (h : l.widen r = .ok (l', r')) (hs : l'.sort = r'.sort) :
    l.sort.join? r.sort = some l'.sort := by
  unfold Term.widen at h
  split at h
  · next hl hr =>
    obtain ⟨x, hx, h⟩ := Attempt.map_ok.1 h
    cases h
    rw [hl, hr, sort_mkToReal (checked_eq_ok.1 hx)]
    rfl
  · next hl hr =>
    obtain ⟨x, hx, h⟩ := Attempt.map_ok.1 h
    cases h
    rw [hl, hr]
    rfl
  · cases h
    rw [hs, TermSort.join?_self]

theorem sort_encodeArith {op : Operator} (h : encodeArith op l r = .ok t) :
    l.sort.join? r.sort = some t.sort ∧ l.sort.isNumeric ∧ r.sort.isNumeric ∧
      Term.takesArith op t.sort = true := by
  obtain ⟨⟨l', r'⟩, hw, h⟩ := Attempt.bind_ok.1 h
  have hop := checked_eq_ok.1 h
  obtain ⟨hsame, htakes⟩ := Term.sort_operands_of_mkArith hop
  have hjoin := join?_of_widen hw hsame
  rw [sort_mkArith hop]
  have hnumeric := TermSort.isNumeric_of_join? hjoin (isNumeric_of_takesArith htakes)
  exact ⟨hjoin, hnumeric.1, hnumeric.2, htakes⟩

/-- An arithmetic operation has the join of the sorts that were told of its operands. -/
theorem told_arith {op : Operator} (hl : (Operand.term l).Told a) (hr : (Operand.term r).Told b)
    (h : encodeArith op l r = .ok t) : LocalSorts.either a b = some t.sort := by
  obtain ⟨hjoin, hnl, hnr, -⟩ := sort_encodeArith h
  rw [hl.of_isNumeric hnl, hr.of_isNumeric hnr]
  exact hjoin

theorem told_bools {x : Except SortMismatch Term} {refused : EncodingError}
    (hl : (Operand.term l).Told a) (hr : (Operand.term r).Told b)
    (hx : ∀ {t}, x = .ok t → t.sort = .bool)
    (h : (if l.sort = .bool ∧ r.sort = .bool then checked x else .error refused) = .ok t) :
    LocalSorts.either a b = some t.sort := by
  split_ifs at h with hs
  have hbool : a = some .bool ∧ b = some .bool := by
    rw [hl.eq_some (by simp [hs.1]), hr.eq_some (by simp [hs.2]), hs.1, hs.2]
    exact ⟨rfl, rfl⟩
  rw [hbool.1, hbool.2, hx (checked_eq_ok.1 h)]
  rfl

theorem sort_mkJunction {op : Operator} {unit : Bool} {ts : List Term}
    (h : Term.mkJunction op unit ts = .ok t) : t.sort = .bool := (Construction.junction_ok h).2.1

theorem sort_mkXor (h : Term.mkXor l r = .ok t) : t.sort = .bool := by
  have hsig : Operator.Signature .xor [l.sort, r.sort] t.sort := (Construction.xor_ok h).1
  obtain ⟨hl, hr⟩ := hsig.sorts_xor
  rw [hl, hr] at hsig
  exact hsig.unique .xor

theorem told_binary {op : BinaryOp} (hl : (Operand.term l).Told a) (hr : (Operand.term r).Told b)
    (h : encodeBinary op l r = .ok t) : LocalSorts.ofBinary op a b = some t.sort := by
  cases op with
  | add | sub | mul | pow => exact told_arith hl hr h
  | bitAnd | bitOr => exact told_bools hl hr sort_mkJunction h
  | bitXor => exact told_bools hl hr sort_mkXor h
  | shl | shr => cases h
  | mod =>
    have hop := checked_eq_ok.1 h
    have htakes := (Term.sort_operands_of_mkArith hop).2
    have hint : l.sort = .int := of_decide_eq_true htakes
    rw [sort_mkArith hop, hint]
    rfl
  | div =>
    simp only [encodeBinary] at h
    split_ifs at h with hs
    · rw [sort_mkArith (checked_eq_ok.1 h), hl.eq_some (by simp [hs.1]),
        hr.eq_some (by simp [hs.2]), hs.1, hs.2]
      rfl
    · obtain ⟨hjoin, hnl, hnr, htakes⟩ := sort_encodeArith h
      have hreal : t.sort = .real := of_decide_eq_true htakes
      rw [hl.of_isNumeric hnl, hr.of_isNumeric hnr, hreal]
      simp [LocalSorts.ofBinary, hs]

theorem sort_mkNeg (h : Term.mkNeg l = .ok t) : t.sort = l.sort := by
  have hsig : Operator.Signature .neg [l.sort] t.sort := (Construction.neg_ok h).1
  exact hsig.unique (.neg hsig.isNumeric_neg)

theorem sort_mkNot (h : Term.mkNot l = .ok t) : t.sort = .bool := by
  have hsig : Operator.Signature .not [l.sort] t.sort := (Construction.not_ok h).1
  exact hsig.unique (hsig.sort_not ▸ .not)

theorem sort_encodeUnary {op : UnaryOp} (hop : op ≠ .identity) (h : encodeUnary op l = .ok t) :
    t.sort = l.sort ∧ (∀ e, l.sort ≠ .enum e) ∧ (op = .neg → l.sort.isNumeric) := by
  cases op with
  | identity => exact absurd rfl hop
  | neg =>
    simp only [encodeUnary] at h
    split_ifs at h with hn
    exact ⟨sort_mkNeg (checked_eq_ok.1 h), TermSort.not_enum_of_isNumeric hn, fun _ => hn⟩
  | not =>
    simp only [encodeUnary] at h
    split at h
    · next hs => exact ⟨(sort_mkNot (checked_eq_ok.1 h)).trans hs.symm, by simp [hs], by simp⟩
    · next hs =>
      obtain ⟨x, hx, h⟩ := Attempt.bind_ok.1 h
      have hneg := sort_mkNeg (checked_eq_ok.1 hx)
      exact ⟨(sort_mkArith (checked_eq_ok.1 h)).trans hneg, by simp [hs], by simp⟩
    · cases h

/-! ### Choices and comparisons -/

theorem sort_tagOfSort {tag : String} {s : TermSort} (h : tagOfSort tag s = .ok t) :
    (∃ e, s = .enum e) ∧ t.sort = s := by
  unfold tagOfSort at h
  split at h
  · next e =>
    unfold tagTerm at h
    split at h
    · cases h
      exact ⟨⟨e, rfl⟩, rfl⟩
    · cases h
  · cases h

/-- Nothing, or the sort of an enumeration, is told of two operands that are a variant. -/
theorem told_enum {e : EnumSort} (ht : t.sort = .enum e) (ha : a = some t.sort ∨ a = none)
    (hb : b = some t.sort ∨ b = none) : (Operand.term t).Told (LocalSorts.either a b) := by
  rcases ha with rfl | rfl <;> rcases hb with rfl | rfl
  · exact .inl (TermSort.join?_self _)
  · exact .inl rfl
  · exact .inl rfl
  · exact .inr ⟨rfl, e, ht⟩

theorem told_unify (ho : o.Told a) (ho' : o'.Told b) (h : o.unify o' = .ok (l, r))
    (hs : l.sort = r.sort) : (Operand.term l).Told (LocalSorts.either a b) := by
  unfold Operand.unify at h
  split at h
  · next x y =>
    have hjoin := join?_of_widen h hs
    rcases TermSort.join?_cases hjoin with ⟨hx, hy⟩ | ⟨hx, hy, -⟩
    · rw [Operand.Told, hx] at ho
      rw [Operand.Told, hy] at ho'
      rcases ho with rfl | ⟨rfl, e, he⟩
      · rcases ho' with rfl | ⟨rfl, e, he⟩
        · exact .inl (TermSort.join?_self _)
        · exact told_enum he (.inl rfl) (.inr rfl)
      · exact told_enum he (.inr rfl) (ho'.imp_right And.left)
    · rw [ho.of_isNumeric hx, ho'.of_isNumeric hy]
      exact .inl hjoin
  · next tag y =>
    obtain ⟨x, hx, h⟩ := Attempt.map_ok.1 h
    cases h
    obtain ⟨⟨e, he⟩, hsort⟩ := sort_tagOfSort hx
    exact told_enum (hsort.trans he) (.inr ho) (hsort ▸ ho'.imp_right And.left)
  · next x tag =>
    obtain ⟨y, hy, h⟩ := Attempt.map_ok.1 h
    cases h
    obtain ⟨⟨e, he⟩, -⟩ := sort_tagOfSort hy
    exact told_enum he (ho.imp_right And.left) (.inr ho')
  · cases h
  · cases h
  · cases h

theorem told_chosen {cond : Term} (ho : o.Told a) (ho' : o'.Told b)
    (h : Context.chosen cond o o' = .ok t) : (Operand.term t).Told (LocalSorts.either a b) := by
  obtain ⟨⟨yes, no⟩, hu, h⟩ := Attempt.bind_ok.1 h
  have hsig : Operator.Signature .ite [cond.sort, yes.sort, no.sort] t.sort :=
    (Construction.ite_ok (checked_eq_ok.1 h)).1
  have hsame := hsig.sorts_ite.2
  exact (told_unify ho ho' hu hsame).of_sort (hsig.unique (hsig.sorts_ite.1 ▸ hsame ▸ .ite _))

theorem sort_junction {op : BoolOp} {ts : List Term} (h : Context.junction op ts = .ok t) :
    t.sort = .bool := by
  cases op <;> exact sort_mkJunction (checked_eq_ok.1 h)

theorem sort_compared {ops : List CmpOp} {os : List Operand}
    (h : Context.compared ops o os = .ok t) : t.sort = .bool := by
  obtain ⟨pairs, -, h⟩ := Attempt.bind_ok.1 h
  exact sort_mkJunction (checked_eq_ok.1 h)

theorem told_literal {hint : Option TermSort} {value : Literal}
    (h : Context.literal hint value = .ok o) : o.Told (LocalSorts.ofLiteral value) := by
  cases value with
  | int | real | bool =>
    cases h
    exact .inl rfl
  | text tag =>
    simp only [Context.literal] at h
    split at h
    · next e =>
      obtain ⟨x, hx, rfl⟩ := Attempt.map_ok.1 h
      exact .inr ⟨rfl, e, (sort_tagOfSort (s := .enum e) hx).2⟩
    · cases h
      rfl

end

/-! ### Expressions -/

namespace Context

/-- What a node stands for, where a local stands for its sort. -/
def sortedLeaf (c : Context) (n : Node) : Leaf :=
  match c.leaf n with
  | .local name => .sort (c.sortOfLocal name)
  | other => other

/-- The sort of an expression, as far as it can be told without encoding it. -/
def sortOf (c : Context) (n : Node) : Option TermSort := LocalSorts.infer c.sortedLeaf .empty n

variable {c : Context} {entry : Entry} {count : VarKey → Nat}

theorem sortedLeaf_of_key {n : Node} {key : VarKey} (hs : c.isStep n = false)
    (hk : c.key? n = some key) : c.sortedLeaf n = .sort (c.sortOfKey key) := by
  cases key <;> simp [sortedLeaf, leaf, hs, hk, sortOfKey]

theorem sort_of_leaf {n : Node} {t : Term} (h : (c.asEncoded entry count).leaf n = .ok t) :
    c.sortedLeaf n = .sort t.sort := by
  simp only [asEncoded] at h
  split at h
  · next hs =>
    cases h
    simp [sortedLeaf, leaf, hs, stepVariable, Term.sort]
  · next hs =>
    obtain ⟨key, hkey, h⟩ := Attempt.bind_ok.1 h
    unfold keyed at hkey
    split at hkey
    · next key' hk =>
      cases hkey
      rw [sortedLeaf_of_key (by simpa using hs) hk, sort_of_handle h]
    · cases hkey

/-- **An expression becomes a term of the sort that is told of it.** -/
theorem told_plain : (n : Node) → ∀ {hint : Option TermSort} {o : Operand},
    plain (c.asEncoded entry count).leaf hint n = .ok o → o.Told (c.sortOf n)
  | .literal value, hint, o, h => told_literal h
  | .name n, hint, o, h => by
    obtain ⟨t, ht, rfl⟩ := Attempt.map_ok.1 h
    have hsort := sort_of_leaf ht
    exact .inl (by rw [sortOf, LocalSorts.infer, hsort, LocalSorts.ofLeaf])
  | .access segments, hint, o, h => by
    obtain ⟨t, ht, rfl⟩ := Attempt.map_ok.1 h
    have hsort := sort_of_leaf ht
    exact .inl (by rw [sortOf, LocalSorts.infer, hsort, LocalSorts.ofLeaf])
  | .unary .identity operand, hint, o, h => told_plain operand h
  | .unary .neg operand, hint, o, h => by
    obtain ⟨x, hx, h⟩ := Attempt.bind_ok.1 h
    obtain ⟨t, ht, h⟩ := Attempt.bind_ok.1 h
    obtain ⟨t', ht', rfl⟩ := Attempt.map_ok.1 h
    obtain ⟨hsort, hother, hnumeric⟩ := sort_encodeUnary (by decide : UnaryOp.neg ≠ .identity) ht'
    have htold := ((told_plain operand hx).toTerm ht).eq_some hother
    have hkept : (c.sortOf operand).filter TermSort.isNumeric = some t.sort := by
      rw [htold, Option.filter_some, if_pos (hnumeric rfl)]
    exact .inl (hsort ▸ hkept)
  | .unary .not operand, hint, o, h => by
    obtain ⟨x, hx, h⟩ := Attempt.bind_ok.1 h
    obtain ⟨t, ht, h⟩ := Attempt.bind_ok.1 h
    obtain ⟨t', ht', rfl⟩ := Attempt.map_ok.1 h
    obtain ⟨hsort, hother, -⟩ := sort_encodeUnary (by decide : UnaryOp.not ≠ .identity) ht'
    have htold := ((told_plain operand hx).toTerm ht).eq_some hother
    exact .inl (hsort ▸ htold)
  | .binary op left right, hint, o, h => by
    obtain ⟨x, hx, h⟩ := Attempt.bind_ok.1 h
    obtain ⟨l, hl, h⟩ := Attempt.bind_ok.1 h
    obtain ⟨y, hy, h⟩ := Attempt.bind_ok.1 h
    obtain ⟨r, hr, h⟩ := Attempt.bind_ok.1 h
    obtain ⟨t, ht, rfl⟩ := Attempt.map_ok.1 h
    exact .inl (told_binary ((told_plain left hx).toTerm hl) ((told_plain right hy).toTerm hr) ht)
  | .logical op values, hint, o, h => by
    obtain ⟨ts, -, h⟩ := Attempt.bind_ok.1 h
    obtain ⟨t, ht, rfl⟩ := Attempt.map_ok.1 h
    exact .inl (congrArg some (sort_junction ht).symm)
  | .compare left ops others, hint, o, h => by
    obtain ⟨x, -, h⟩ := Attempt.bind_ok.1 h
    obtain ⟨ys, -, h⟩ := Attempt.bind_ok.1 h
    obtain ⟨t, ht, rfl⟩ := Attempt.map_ok.1 h
    exact .inl (congrArg some (sort_compared ht).symm)
  | .choice test body orelse, hint, o, h => by
    obtain ⟨x, -, h⟩ := Attempt.bind_ok.1 h
    obtain ⟨cond, -, h⟩ := Attempt.bind_ok.1 h
    obtain ⟨yes, hyes, h⟩ := Attempt.bind_ok.1 h
    obtain ⟨no, hno, h⟩ := Attempt.bind_ok.1 h
    obtain ⟨t, ht, rfl⟩ := Attempt.map_ok.1 h
    exact told_chosen (told_plain body hyes) (told_plain orelse hno) ht
  | .unsupported text, hint, o, h => by
    cases h
    rfl
  | .assign targets value, hint, o, h => nomatch h
  | .augment target op value, hint, o, h => nomatch h
  | .branch test body orelse, hint, o, h => nomatch h
  | .ret value, hint, o, h => nomatch h
  | .block body, hint, o, h => nomatch h

end Context

end HybridStep
