import HybridStep.Encoding.Operand
import HybridStep.Proofs.Meaning.Combinator
import HybridStep.Proofs.Success

/-! # Meaning of encoded operations

What an expression of a body gives: a value, a text that no enumeration has been chosen for, or
something unknown where its syntax is passed through. An operation on operands that mean such data
is encoded by a term that denotes the result of the operation; in particular there is a result. -/

namespace HybridStep

/-- What an expression of a body gives. -/
inductive Datum (K : Type) where
  | val (v : Val K)
  | text (s : String)
  | unknown
  deriving DecidableEq

variable {K : Type} [Field K]

namespace Datum

/-- The value that a datum is. -/
def val? : Datum K → Option (Val K)
  | val v => some v
  | _ => none

/-- The truth value that a datum is. -/
def truth? : Datum K → Option Bool
  | val (.bool b) => some b
  | _ => none

/-- A datum as a value of a sort. -/
def as? (s : TermSort) : Datum K → Option (Val K)
  | val v => v.as? s
  | text t => Val.textAs? t s
  | unknown => none

/-- Two data as values to compare or to choose between: an integer that meets a real is widened, a
text that meets a value names a variant of its enumeration. -/
def unify? : Datum K → Datum K → Option (Val K × Val K)
  | val v, val w => some (v.widen w)
  | text t, val w => (Val.textAs? t w.sort).map (·, w)
  | val v, text t => (Val.textAs? t v.sort).map (v, ·)
  | _, _ => none

end Datum

/-- The comparisons of each datum with the next one, as far as there are operators. -/
def CmpOp.chain? [LinearOrder K] : List CmpOp → Datum K → List (Datum K) → Option (List Bool)
  | op :: ops, left, right :: rest => do
    let (v, w) ← left.unify? right
    let first ← op.apply? v w
    let others ← chain? ops right rest
    return first :: others
  | _, _, _ => some []

variable [LinearOrder K] {A : Arith K} {σ : Valuation K}

/-- An encoded operand and the datum that it stands for. -/
def Operand.Means (A : Arith K) (σ : Valuation K) : Operand → Datum K → Prop
  | .term t, .val v => t.Denotes A σ v
  | .tag t, .text s => t = s
  | .opaqueText _, .unknown => True
  | _, _ => False

@[simp] theorem checked_eq_ok {r : Except SortMismatch Term} {t : Term} :
    checked r = .ok t ↔ r = .ok t := by
  cases r <;> simp [checked, Except.mapError]

variable {l r t : Term} {v w : Val K} {o o' : Operand} {d d' : Datum K}

theorem Operand.Means.eq_unknown {text : String} (h : (Operand.opaqueText text).Means A σ d) :
    d = .unknown := by
  cases d with
  | val | text => exact h.elim
  | unknown => rfl

theorem Operand.Means.ne_unknown (h : o.Means A σ d) (ho : ∀ text, o ≠ .opaqueText text) :
    d ≠ .unknown := by
  rintro rfl
  cases o with
  | term | tag => exact h.elim
  | opaqueText text => exact ho text rfl

theorem Operand.Means.of_toTerm (h : o.Means A σ d) (ht : o.toTerm = .ok t) :
    ∃ v, d = .val v ∧ t.Denotes A σ v := by
  cases o with
  | term u =>
    cases ht
    cases d with
    | val v => exact ⟨v, rfl, h⟩
    | text | unknown => exact h.elim
  | tag | opaqueText => cases ht

theorem indexOf?_denotes {e : EnumSort} {tag : String} {i : Nat} (h : e.indexOf? tag = some i) :
    ∃ v : Val K, Val.ofText? e tag = some v ∧ (Term.tag e i).Denotes A σ v := by
  have hlt : i < e.variants.length := (List.findIdx?_eq_some_iff_getElem.1 h).1
  have htag : Val.tag? e i = some (.tag (K := K) e ⟨i, hlt⟩) := dif_pos hlt
  exact ⟨_, by rw [Val.ofText?, h]; exact htag, Term.denotes_tag htag⟩

theorem tagOfSort_denotes {tag : String} {s : TermSort} (h : tagOfSort tag s = .ok t) :
    ∃ v : Val K, Val.textAs? tag s = some v ∧ t.Denotes A σ v := by
  cases s with
  | enum e =>
    simp only [tagOfSort, tagTerm] at h
    split at h
    · next i hi =>
      cases h
      exact indexOf?_denotes hi
    · cases h
  | int | real | bool => cases h

theorem widen_denotes {l' r' : Term} (hl : l.Denotes A σ v) (hr : r.Denotes A σ w)
    (h : l.widen r = .ok (l', r')) :
    l'.Denotes A σ (v.widen w).1 ∧ r'.Denotes A σ (v.widen w).2 := by
  unfold Term.widen at h
  rw [← hl.2, ← hr.2] at h
  cases v <;> cases w <;> try (cases h; exact ⟨hl, hr⟩)
  · obtain ⟨u, hu, hp⟩ := Attempt.map_ok.1 h
    cases hp
    exact ⟨Term.denotes_mkToReal hl (checked_eq_ok.1 hu), hr⟩
  · obtain ⟨u, hu, hp⟩ := Attempt.map_ok.1 h
    cases hp
    exact ⟨hl, Term.denotes_mkToReal hr (checked_eq_ok.1 hu)⟩

theorem unify_denotes (ho : o.Means A σ d) (ho' : o'.Means A σ d')
    (h : o.unify o' = .ok (l, r)) :
    ∃ v w, d.unify? d' = some (v, w) ∧ l.Denotes A σ v ∧ r.Denotes A σ w := by
  cases o <;> cases o' <;> try cases h
  · next t t' =>
    obtain ⟨v, rfl, hv⟩ := ho.of_toTerm rfl
    obtain ⟨w, rfl, hw⟩ := ho'.of_toTerm rfl
    exact ⟨_, _, rfl, widen_denotes hv hw h⟩
  · next t tag =>
    obtain ⟨v, rfl, hv⟩ := ho.of_toTerm rfl
    obtain ⟨u, hu, hp⟩ := Attempt.map_ok.1 h
    cases hp
    obtain ⟨w, htext, hw⟩ := tagOfSort_denotes (A := A) (σ := σ) hu
    cases d' <;> try exact ho'.elim
    obtain rfl : tag = _ := ho'
    exact ⟨v, w, by rw [Datum.unify?, hv.2, htext]; rfl, hv, hw⟩
  · next tag t =>
    obtain ⟨w, rfl, hw⟩ := ho'.of_toTerm rfl
    obtain ⟨u, hu, hp⟩ := Attempt.map_ok.1 h
    cases hp
    obtain ⟨v, htext, hv⟩ := tagOfSort_denotes (A := A) (σ := σ) hu
    cases d <;> try exact ho.elim
    obtain rfl : tag = _ := ho
    exact ⟨v, w, by rw [Datum.unify?, hw.2, htext]; rfl, hv, hw⟩

variable [IsStrictOrderedRing K]

theorem encodeUnary_denotes {op : UnaryOp} (hl : l.Denotes A σ v)
    (h : encodeUnary op l = .ok t) : ∃ w, op.apply? v = some w ∧ t.Denotes A σ w := by
  cases op with
  | identity => cases h; exact ⟨v, by cases v <;> rfl, hl⟩
  | neg =>
    simp only [encodeUnary, ← hl.2] at h
    split_ifs at h with hs
    cases v <;> try cases hs
    · exact ⟨_, rfl, Term.denotes_mkNeg_int hl (checked_eq_ok.1 h)⟩
    · exact ⟨_, rfl, Term.denotes_mkNeg_real hl (checked_eq_ok.1 h)⟩
  | not =>
    simp only [encodeUnary, ← hl.2] at h
    cases v <;> try cases h
    · next n =>
      obtain ⟨u, hu, h⟩ := Attempt.bind_ok.1 h
      have hneg := Term.denotes_mkNeg_int hl (checked_eq_ok.1 hu)
      exact ⟨_, rfl, Term.denotes_mkArith hneg (Term.denotes_int _) (checked_eq_ok.1 h)⟩
    · next b => exact ⟨_, rfl, Term.denotes_mkNot hl (checked_eq_ok.1 h)⟩

theorem encodeArith_denotes {op : Operator} (hl : l.Denotes A σ v) (hr : r.Denotes A σ w)
    (h : encodeArith op l r = .ok t) :
    (v.widen w).1.sort = (v.widen w).2.sort ∧ Term.takesArith op (v.widen w).1.sort = true ∧
      t.Denotes A σ (op.onTwo A (v.widen w).1 (v.widen w).2) := by
  obtain ⟨⟨l', r'⟩, hw, h⟩ := Attempt.bind_ok.1 h
  obtain ⟨hl', hr'⟩ := widen_denotes hl hr hw
  have ht := checked_eq_ok.1 h
  obtain ⟨hs, hop⟩ := Term.sort_operands_of_mkArith ht
  exact ⟨hl'.2.trans (hs.trans hr'.2.symm), hl'.2 ▸ hop, Term.denotes_mkArith hl' hr' ht⟩

omit [IsStrictOrderedRing K] [LinearOrder K] [Field K] in
theorem isNumeric_of_takesArith {op : Operator} {s : TermSort} (h : Term.takesArith op s = true) :
    s.isNumeric = true := by
  cases op <;> cases s <;> first | rfl | cases h

theorem encodeArith_numeric {op : Operator} {onInt : Int → Int → Int} {onReal : K → K → K}
    (hint : Term.takesArith op .int = true →
      ∀ a b, op.onTwo A (.int a) (.int b) = .int (onInt a b))
    (hreal : ∀ x y, op.onTwo A (.real x) (.real y) = .real (onReal x y))
    (hl : l.Denotes A σ v) (hr : r.Denotes A σ w) (h : encodeArith op l r = .ok t) :
    ∃ u, Val.numeric? onInt onReal v w = some u ∧ t.Denotes A σ u := by
  obtain ⟨hs, hop, ht⟩ := encodeArith_denotes hl hr h
  unfold Val.numeric?
  generalize v.widen w = p at *
  obtain ⟨a, b⟩ := p
  cases a <;> cases b <;> try cases hs
  · next a b => exact ⟨_, rfl, hint hop a b ▸ ht⟩
  · next x y => exact ⟨_, rfl, hreal x y ▸ ht⟩
  · exact absurd (isNumeric_of_takesArith hop) (by simp [Val.sort, TermSort.isNumeric])
  · exact absurd (isNumeric_of_takesArith hop) (by simp [Val.sort, TermSort.isNumeric])

omit [IsStrictOrderedRing K] in
theorem encodeBools_denotes {f : Bool → Bool → Bool} {x : Except SortMismatch Term}
    {e : EncodingError} (hl : l.Denotes A σ v) (hr : r.Denotes A σ w)
    (hf : ∀ a b, v = .bool a → w = .bool b → x = .ok t → t.Denotes A σ (.bool (f a b)))
    (h : (if l.sort = .bool ∧ r.sort = .bool then checked x else .error e) = .ok t) :
    ∃ u, Val.logical? f v w = some u ∧ t.Denotes A σ u := by
  split_ifs at h with hs
  rw [← hl.2, ← hr.2] at hs
  obtain ⟨a, rfl⟩ := Val.sort_eq_bool.1 hs.1
  obtain ⟨b, rfl⟩ := Val.sort_eq_bool.1 hs.2
  exact ⟨_, rfl, hf a b rfl rfl (checked_eq_ok.1 h)⟩

theorem encodeBinary_denotes {op : BinaryOp} (hl : l.Denotes A σ v) (hr : r.Denotes A σ w)
    (h : encodeBinary op l r = .ok t) :
    ∃ u, op.apply? A v w = some u ∧ t.Denotes A σ u := by
  cases op with
  | add => exact encodeArith_numeric (fun _ _ _ => rfl) (fun _ _ => rfl) hl hr h
  | sub => exact encodeArith_numeric (fun _ _ _ => rfl) (fun _ _ => rfl) hl hr h
  | mul => exact encodeArith_numeric (fun _ _ _ => rfl) (fun _ _ => rfl) hl hr h
  | pow => exact encodeArith_numeric (fun _ _ _ => rfl) (fun _ _ => rfl) hl hr h
  | div =>
    simp only [encodeBinary] at h
    split_ifs at h with hs
    · rw [← hl.2, ← hr.2] at hs
      obtain ⟨a, rfl⟩ := Val.sort_eq_int.1 hs.1
      obtain ⟨b, rfl⟩ := Val.sort_eq_int.1 hs.2
      exact ⟨_, rfl, Term.denotes_mkArith hl hr (checked_eq_ok.1 h)⟩
    · exact encodeArith_numeric (fun hop => by cases hop) (fun _ _ => rfl) hl hr h
  | mod =>
    have ht := checked_eq_ok.1 h
    obtain ⟨hs, hop⟩ := Term.sort_operands_of_mkArith ht
    have hint : l.sort = .int := by simpa [Term.takesArith] using hop
    obtain ⟨a, rfl⟩ := Val.sort_eq_int.1 (hl.2.trans hint)
    obtain ⟨b, rfl⟩ := Val.sort_eq_int.1 (hr.2.trans (hs.symm.trans hint))
    exact ⟨_, rfl, Term.denotes_mkArith hl hr ht⟩
  | bitAnd =>
    refine encodeBools_denotes hl hr (fun a b hv hw ht => ?_) h
    subst hv hw
    simpa using Term.denotes_mkAnd ht (.cons hl (.cons hr .nil))
  | bitOr =>
    refine encodeBools_denotes hl hr (fun a b hv hw ht => ?_) h
    subst hv hw
    simpa using Term.denotes_mkOr ht (.cons hl (.cons hr .nil))
  | bitXor =>
    refine encodeBools_denotes hl hr (fun a b hv hw ht => ?_) h
    subst hv hw
    exact Term.denotes_mkXor hl hr ht
  | shl | shr => cases h

/-! ### Comparisons -/

omit [IsStrictOrderedRing K] in
theorem onTwo_operator {op : CmpOp} (hs : v.sort = w.sort)
    (h : Term.takesCompare op.operator v.sort = true) :
    ∃ b, op.apply? v w = some b ∧ op.operator.onTwo A v w = .bool b := by
  cases v <;> cases w <;> try cases hs
  · next a b =>
    refine ⟨_, rfl, ?_⟩
    cases op <;> simp [CmpOp.operator, CmpOp.test, Operator.onTwo, Operator.onInts] <;> grind
  · next x y =>
    refine ⟨_, rfl, ?_⟩
    cases op <;> simp [CmpOp.operator, CmpOp.test, Operator.onTwo, Operator.onReals] <;> grind
  · have hop : op = .eq ∨ op = .ne := by
      cases op <;> first | exact .inl rfl | exact .inr rfl | cases h
    refine ⟨_, if_pos ⟨rfl, hop⟩, ?_⟩
    rcases hop with rfl | rfl <;> rfl
  · have hop : op = .eq ∨ op = .ne := by
      cases op <;> first | exact .inl rfl | exact .inr rfl | cases h
    refine ⟨_, if_pos ⟨rfl, hop⟩, ?_⟩
    rcases hop with rfl | rfl <;> rfl

theorem encodeCompare_denotes {op : CmpOp} (ho : o.Means A σ d) (ho' : o'.Means A σ d')
    (h : encodeCompare op o o' = .ok t) :
    ∃ v w b, d.unify? d' = some (v, w) ∧ op.apply? v w = some b ∧ t.Denotes A σ (.bool b) := by
  obtain ⟨⟨l, r⟩, hu, h⟩ := Attempt.bind_ok.1 h
  obtain ⟨v, w, hd, hl, hr⟩ := unify_denotes ho ho' hu
  have ht := checked_eq_ok.1 h
  obtain ⟨hs, hop⟩ := Term.sort_operands_of_mkCompare ht
  obtain ⟨b, hb, hv⟩ := onTwo_operator (A := A) (hl.2.trans (hs.trans hr.2.symm)) (hl.2 ▸ hop)
  exact ⟨v, w, b, hd, hb, hv ▸ Term.denotes_mkCompare hl hr ht⟩

theorem encodePairs_denotes : ∀ {ops : List CmpOp} {o : Operand} {os : List Operand} {d : Datum K}
    {ds : List (Datum K)} {ts : List Term}, o.Means A σ d → List.Forall₂ (Operand.Means A σ) os ds →
    encodePairs ops o os = .ok ts →
    ∃ bs, CmpOp.chain? ops d ds = some bs ∧
      List.Forall₂ (fun t b => t.Denotes A σ (.bool b)) ts bs
  | [], _, _, _, _, _, _, _, h => by
    simp only [encodePairs] at h
    cases h
    exact ⟨[], rfl, .nil⟩
  | _ :: _, _, [], _, _, _, _, .nil, h => by
    simp only [encodePairs] at h
    cases h
    exact ⟨[], rfl, .nil⟩
  | op :: ops, o, o' :: os, d, d' :: ds, ts, ho, .cons ho' hos, h => by
    obtain ⟨first, hfirst, h⟩ := Attempt.bind_ok.1 h
    obtain ⟨others, hothers, h⟩ := Attempt.bind_ok.1 h
    cases h
    obtain ⟨v, w, b, hd, hb, ht⟩ := encodeCompare_denotes ho ho' hfirst
    obtain ⟨bs, hbs, hts⟩ := encodePairs_denotes ho' hos hothers
    exact ⟨b :: bs, by simp [CmpOp.chain?, hd, hb, hbs], .cons ht hts⟩

end HybridStep
