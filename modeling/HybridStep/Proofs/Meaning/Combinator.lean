import HybridStep.Proofs.Meaning.Term

/-! # Meaning of checked construction

What each checked constructor builds denotes what its operator gives on what the operands denote. -/

namespace HybridStep.Term

variable {K : Type} [Field K] [LinearOrder K] {A : Arith K} {σ : Valuation K}
variable {l r t c yes no : Term} {ts : List Term} {v w : Val K}

/-! ### Constants -/

theorem denotes_int (n : Word) : (int n).Denotes A σ (.int n.val) := ⟨rfl, rfl⟩

theorem denotes_real (q : Rat) : (real q).Denotes A σ (.real q) := ⟨rfl, rfl⟩

theorem denotes_bool (b : Bool) : (bool b).Denotes A σ (.bool b) := ⟨rfl, rfl⟩

theorem denotes_tag {e : EnumSort} {i : Nat} (h : Val.tag? e i = some v) :
    (tag e i).Denotes A σ v := by
  refine ⟨by simp [tag, val, Constant.val, h], ?_⟩
  unfold Val.tag? at h
  split at h
  · cases h; rfl
  · cases h

theorem denotes_const_int {n : Word} (h : (const (.int n)).Denotes A σ v) : v = .int n.val :=
  h.1.symm

theorem denotes_const_tag {e : EnumSort} {i : Nat} (h : (const (.tag e i)).Denotes A σ v) :
    ∃ hi : i < e.variants.length, v = .tag e ⟨i, hi⟩ := by
  obtain ⟨hv, hs⟩ := h
  simp only [val, Constant.val, Val.tag?] at hv
  split_ifs at hv with hi
  · exact ⟨hi, hv.symm⟩
  · rw [← hv] at hs
    cases hs

/-! ### Truth values -/

theorem holds_mkEq (h : mkEq l r = .ok t) : t.Holds A σ ↔ l.val A σ = r.val A σ := by
  unfold mkEq at h
  split_ifs at h
  cases h
  simp [Holds, val, vals, Operator.apply, Operator.onTwo]

theorem mkJunction_ok {op : Operator} {unit : Bool} (h : mkJunction op unit ts = .ok t) :
    (∀ x ∈ ts, x.sort = .bool) ∧ t = if ts.isEmpty then bool unit else app op ts .bool := by
  unfold mkJunction at h
  split at h
  · cases h
  · next hf =>
    cases h
    exact ⟨by simpa using hf, rfl⟩

theorem holds_mkAnd (h : mkAnd ts = .ok t) : t.Holds A σ ↔ ∀ x ∈ ts, x.Holds A σ := by
  obtain ⟨-, rfl⟩ := mkJunction_ok h
  cases ts with
  | nil => simp [Holds, bool, val, Constant.val]
  | cons x xs => simp [Holds, val, Operator.apply, vals_eq_map]

theorem vals_eq_bools {bs : List Bool}
    (hts : List.Forall₂ (fun t b => t.Denotes A σ (.bool b)) ts bs) :
    vals A σ ts = bs.map Val.bool := by
  induction hts with
  | nil => rfl
  | cons h _ ih => rw [vals, h.1, ih, List.map_cons]

theorem denotes_mkAnd {bs : List Bool} (h : mkAnd ts = .ok t)
    (hts : List.Forall₂ (fun t b => t.Denotes A σ (.bool b)) ts bs) :
    t.Denotes A σ (.bool (bs.all fun b => b)) := by
  obtain ⟨-, rfl⟩ := mkJunction_ok h
  have hv := vals_eq_bools hts
  cases hts with
  | nil => exact denotes_bool true
  | cons h0 hs => exact ⟨by simp [val, Operator.apply, hv, Function.comp_def], rfl⟩

theorem denotes_mkOr {bs : List Bool} (h : mkOr ts = .ok t)
    (hts : List.Forall₂ (fun t b => t.Denotes A σ (.bool b)) ts bs) :
    t.Denotes A σ (.bool (bs.any fun b => b)) := by
  obtain ⟨-, rfl⟩ := mkJunction_ok h
  have hv := vals_eq_bools hts
  cases hts with
  | nil => exact denotes_bool false
  | cons h0 hs => exact ⟨by simp [val, Operator.apply, hv, Function.comp_def], rfl⟩

theorem denotes_mkNot {b : Bool} (ht : t.Denotes A σ (.bool b)) (h : mkNot t = .ok r) :
    r.Denotes A σ (.bool !b) := by
  unfold mkNot at h
  split at h
  · next b' =>
    cases h
    have hb : b' = b := Val.bool.inj ht.1
    exact hb ▸ denotes_bool (!b')
  · split_ifs at h
    cases h
    exact ⟨by simp [val, vals, Operator.apply, Operator.onOne, ht.1], rfl⟩

theorem denotes_mkXor {a b : Bool} (hl : l.Denotes A σ (.bool a)) (hr : r.Denotes A σ (.bool b))
    (h : mkXor l r = .ok t) : t.Denotes A σ (.bool (a ^^ b)) := by
  unfold mkXor at h
  split_ifs at h
  split at h
  · next a' b' _ =>
    cases h
    have ha : a' = a := Val.bool.inj hl.1
    have hb : b' = b := Val.bool.inj hr.1
    exact ha ▸ hb ▸ denotes_bool (a' ^^ b')
  · cases h
    exact ⟨by simp [val, vals, Operator.apply, Operator.onTwo, hl.1, hr.1], rfl⟩

theorem mkIte_ok (h : mkIte c yes no = .ok t) :
    c.sort = .bool ∧ yes.sort = no.sort ∧ t = app .ite [c, yes, no] yes.sort := by
  unfold mkIte at h
  split_ifs at h with hs
  cases h
  exact ⟨hs.1, hs.2, rfl⟩

theorem denotes_mkIte {b : Bool} (hc : c.Denotes A σ (.bool b)) (hy : yes.Denotes A σ v)
    (hn : no.Denotes A σ w) (h : mkIte c yes no = .ok t) :
    t.Denotes A σ (if b then v else w) := by
  obtain ⟨-, hs, rfl⟩ := mkIte_ok h
  refine ⟨by simp [val, vals, Operator.apply, hc.1, hy.1, hn.1], ?_⟩
  cases b
  · exact hn.2.trans hs.symm
  · exact hy.2

theorem holds_mkIte {b : Bool} (hc : c.Denotes A σ (.bool b)) (h : mkIte c yes no = .ok t) :
    t.Holds A σ ↔ if b then yes.Holds A σ else no.Holds A σ := by
  obtain ⟨-, -, rfl⟩ := mkIte_ok h
  cases b <;> simp [Holds, val, vals, Operator.apply, hc.1]

/-! ### Numbers -/

theorem denotes_mkToReal {n : Int} (ht : t.Denotes A σ (.int n)) (h : mkToReal t = .ok r) :
    r.Denotes A σ (.real n) := by
  unfold mkToReal at h
  split at h
  · next n' =>
    cases h
    have hn : n'.val = n := Val.int.inj ht.1
    exact ⟨by simp [real, val, Constant.val, hn], rfl⟩
  · rw [← ht.2] at h
    cases h
    exact ⟨by simp [val, vals, Operator.apply, Operator.onOne, ht.1], rfl⟩

theorem denotes_mkNeg_int {n : Int} (ht : t.Denotes A σ (.int n)) (h : mkNeg t = .ok r) :
    r.Denotes A σ (.int (-n)) := by
  have hneg : (app .neg [t] .int).Denotes A σ (.int (-n)) :=
    ⟨by simp [val, vals, Operator.apply, Operator.onOne, ht.1], rfl⟩
  unfold mkNeg at h
  split at h
  · next n' =>
    cases h
    have hn : n'.val = n := Val.int.inj ht.1
    split
    · next m hm =>
      have hm' : -n = m.val := hn ▸ Word.ofInt?_eq_some_iff.1 hm
      exact hm' ▸ denotes_int m
    · exact hneg
  · exact absurd ht.2 (by simp [sort, Constant.sort, Val.sort])
  · rw [← ht.2] at h
    cases h
    exact hneg

theorem denotes_mkNeg_real [IsStrictOrderedRing K] {x : K} (ht : t.Denotes A σ (.real x))
    (h : mkNeg t = .ok r) : r.Denotes A σ (.real (-x)) := by
  unfold mkNeg at h
  split at h
  · exact absurd ht.2 (by simp [sort, Constant.sort, Val.sort])
  · next q =>
    cases h
    have hq : (q : K) = x := Val.real.inj ht.1
    have hneg := denotes_real (A := A) (σ := σ) (-q)
    rwa [Rat.cast_neg, hq] at hneg
  · rw [← ht.2] at h
    cases h
    exact ⟨by simp [val, vals, Operator.apply, Operator.onOne, ht.1], rfl⟩

/-! ### Operations on two numbers -/

theorem denotes_app_two {op : Operator} {s : TermSort} (hl : l.Denotes A σ v)
    (hr : r.Denotes A σ w) (h : op ≠ .and ∧ op ≠ .or ∧ op ≠ .ite)
    (hs : (op.onTwo A v w).sort = s) : (app op [l, r] s).Denotes A σ (op.onTwo A v w) := by
  refine ⟨?_, hs⟩
  cases op <;> simp_all [val, vals, Operator.apply, hl.1, hr.1]

theorem foldArith_eq [IsStrictOrderedRing K] {op : Operator} (hl : l.Denotes A σ v)
    (hr : r.Denotes A σ w) (h : foldArith op l r = some t) : t.Denotes A σ (op.onTwo A v w) := by
  unfold foldArith at h
  split at h
  · next a b =>
    obtain ⟨c, hc, rfl⟩ := Option.map_eq_some_iff.1 h
    obtain rfl := denotes_const_int hl
    obtain rfl := denotes_const_int hr
    have hv := foldInt_eq (A := A) hc
    have : op.onTwo A (.int a.val) (.int b.val) = op.onInts A a.val b.val := by
      cases op <;> first | rfl | cases hc
    exact this ▸ hv ▸ denotes_int c
  · next a b =>
    obtain ⟨c, hc, rfl⟩ := Option.map_eq_some_iff.1 h
    obtain rfl : v = .real a := hl.1.symm
    obtain rfl : w = .real b := hr.1.symm
    have hv := foldReal_eq (A := A) hc
    have : op.onTwo A (.real (a : K)) (.real b) = op.onReals A a b := by
      cases op <;> first | rfl | cases hc
    exact this ▸ hv ▸ denotes_real c
  · cases h

theorem sort_onTwo_of_takesArith {op : Operator} (hs : v.sort = w.sort)
    (h : takesArith op v.sort = true) : (op.onTwo A v w).sort = v.sort := by
  cases v <;> cases w <;> simp [Val.sort] at hs <;> cases op <;>
    first | rfl | simp [takesArith, Val.sort, TermSort.isNumeric] at h

theorem denotes_mkArith [IsStrictOrderedRing K] {op : Operator} (hl : l.Denotes A σ v)
    (hr : r.Denotes A σ w) (h : mkArith op l r = .ok t) : t.Denotes A σ (op.onTwo A v w) := by
  unfold mkArith at h
  split_ifs at h with hs
  cases h
  rw [← hl.2, ← hr.2] at hs
  cases hf : foldArith op l r with
  | some c => exact foldArith_eq hl hr hf
  | none =>
    refine denotes_app_two hl hr ?_ ((sort_onTwo_of_takesArith hs.1 hs.2).trans hl.2)
    refine ⟨?_, ?_, ?_⟩ <;> rintro rfl <;> simp [takesArith] at hs

theorem sort_operands_of_mkArith {op : Operator} (h : mkArith op l r = .ok t) :
    l.sort = r.sort ∧ takesArith op l.sort = true := by
  unfold mkArith at h
  split_ifs at h with hs
  exact hs

/-! ### Comparisons -/

theorem foldOrder_int {op : Operator} {a b : Int} {c : Bool}
    (h : foldOrder op (decide (a < b)) (decide (a = b)) = some c) :
    op.onTwo A (.int a) (.int b) = .bool c := by
  cases op <;> simp only [foldOrder, reduceCtorEq, Option.some.injEq] at h <;>
    simp [← h, Operator.onTwo, Operator.onInts] <;> grind

theorem foldOrder_real {op : Operator} {x y : K} {c : Bool}
    (h : foldOrder op (decide (x < y)) (decide (x = y)) = some c) :
    op.onTwo A (.real x) (.real y) = .bool c := by
  cases op <;> simp only [foldOrder, reduceCtorEq, Option.some.injEq] at h <;>
    simp [← h, Operator.onTwo, Operator.onReals] <;> grind

theorem foldEquality_eq {op : Operator} {b c : Bool} (hb : b = decide (v = w))
    (h : foldEquality op b = some c) : op.onTwo A v w = .bool c := by
  cases op <;> simp only [foldEquality, reduceCtorEq, Option.some.injEq] at h <;>
    simp [← h, hb, Operator.onTwo]

theorem foldCompare_eq [IsStrictOrderedRing K] {op : Operator} {b : Bool}
    (hl : l.Denotes A σ v) (hr : r.Denotes A σ w) (hs : l.sort = r.sort)
    (h : foldCompare op l r = some b) : op.onTwo A v w = .bool b := by
  unfold foldCompare at h
  split at h
  · next a b =>
    obtain rfl := denotes_const_int hl
    obtain rfl := denotes_const_int hr
    have hab : a = b ↔ a.val = b.val := ⟨congrArg Word.val, Word.ext⟩
    exact foldOrder_int (by simpa only [hab] using h)
  · next a b =>
    obtain rfl : v = .real a := hl.1.symm
    obtain rfl : w = .real b := hr.1.symm
    refine foldOrder_real ?_
    simpa only [Rat.cast_lt, Rat.cast_inj] using h
  · next a b =>
    obtain rfl : v = .bool a := hl.1.symm
    obtain rfl : w = .bool b := hr.1.symm
    exact foldEquality_eq (by cases a <;> cases b <;> simp) h
  · next e i e' j =>
    obtain ⟨hi, rfl⟩ := denotes_const_tag hl
    obtain ⟨hj, rfl⟩ := denotes_const_tag hr
    obtain rfl : e = e' := TermSort.enum.inj hs
    exact foldEquality_eq (by rw [Bool.eq_iff_iff]; simp) h
  · cases h

theorem sort_operands_of_mkCompare {op : Operator} (h : mkCompare op l r = .ok t) :
    l.sort = r.sort ∧ takesCompare op l.sort = true := by
  unfold mkCompare at h
  split_ifs at h with hs
  exact hs

theorem sort_onTwo_of_takesCompare {op : Operator} {s : TermSort} (hv : v.sort = s)
    (hw : w.sort = s) (h : takesCompare op s = true) : (op.onTwo A v w).sort = .bool := by
  subst hv
  cases v <;> cases w <;> simp [Val.sort] at hw <;> cases op <;>
    first | rfl | cases h

theorem denotes_mkCompare [IsStrictOrderedRing K] {op : Operator} (hl : l.Denotes A σ v)
    (hr : r.Denotes A σ w) (h : mkCompare op l r = .ok t) :
    t.Denotes A σ (op.onTwo A v w) := by
  obtain ⟨hs, ht⟩ := sort_operands_of_mkCompare h
  unfold mkCompare at h
  rw [if_pos ⟨hs, ht⟩] at h
  cases h
  split
  · next b hb => exact foldCompare_eq hl hr hs hb ▸ denotes_bool b
  · refine denotes_app_two hl hr ?_ (sort_onTwo_of_takesCompare hl.2 (hr.2.trans hs.symm) ht)
    refine ⟨?_, ?_, ?_⟩ <;> rintro rfl <;> simp [takesCompare] at ht

end HybridStep.Term
