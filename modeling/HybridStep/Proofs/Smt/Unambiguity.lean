import HybridStep.Proofs.Smt.Construction
import HybridStep.Proofs.Smt.Reading

/-! # Written terms are unambiguous

Over a vocabulary whose symbols can be told apart, what is written for a term that checked
constructors have built determines the term. Constants and applications share their forms: `(- 2)`
is a negative constant and looks like a negation, `(/ 1.0 3.0)` is a constant and looks like a
division. They do not clash, since the constructors fold the negations and divisions that would be
written so. -/

namespace HybridStep

/-! ### Vocabularies -/

/-- What has a name: variables, enumerations and their variants. -/
inductive Named where
  | var (v : Variable)
  | enum (e : EnumSort)
  | variant (e : EnumSort) (i : Nat)
  deriving DecidableEq

/-- The name as it is written. -/
def Named.symbol : Named → String
  | var v => Symbol.quote v.name
  | enum e => Symbol.quote e.name
  | variant e i => Symbol.quote (e.variants[i]?.getD "?")

/-- The term that it is, if it is one. -/
def Named.term? : Named → Option Term
  | var v => some (.var v)
  | enum _ => none
  | variant e i => some (.tag e i)

/-- The symbols that mean sorts and truth values. -/
def builtinSymbols : List String := ["Int", "Real", "Bool", "true", "false"]

/-- The variables and the enumerations that terms may use. -/
structure Vocabulary where
  vars : Variable → Prop
  enums : EnumSort → Prop

namespace Vocabulary

/-- What the vocabulary has names for. -/
def Has (V : Vocabulary) : Named → Prop
  | .var v => V.vars v
  | .enum e => V.enums e
  | .variant e i => V.enums e ∧ i < e.variants.length

/-- All symbols are different, from each other and from those that mean something else; and
variables that stand for tags have an enumeration of the vocabulary. -/
structure Distinct (V : Vocabulary) : Prop where
  unique {a b : Named} : V.Has a → V.Has b → a.symbol = b.symbol → a = b
  not_builtin {a : Named} : V.Has a → a.symbol ∉ builtinSymbols
  closed {v : Variable} {e : EnumSort} : V.vars v → v.sort = .enum e → V.enums e

/-- The terms that are built by checked constructors from constants, tags and variables of the
vocabulary. -/
inductive Checked (V : Vocabulary) : Term → Prop
  | const {c : Constant} : (∀ e i, c = .tag e i → V.Has (.variant e i)) → Checked V (.const c)
  | var {v : Variable} : V.Has (.var v) → Checked V (.var v)
  | build {c : Construction} {t : Term} : (∀ x ∈ c.operands, Checked V x) → c.build = .ok t →
    Checked V t

end Vocabulary

/-! ### What is always folded -/

/-- Applications to constants that would be written as constants are. -/
inductive Operator.Folds : Operator → List Term → Prop
  | negInt {n : Word} : 0 ≤ n.val → Folds .neg [.int n]
  | negReal (q : Rat) : Folds .neg [.real q]
  | div (p : Rat) {q : Rat} : q ≠ 0 → Folds .div [.real p, .real q]

theorem Word.neg?_isSome {n : Word} (h : 0 ≤ n.val) : n.neg?.isSome := by
  have hn := n.upper
  rw [neg?, ofInt?, dif_pos (by omega)]
  rfl

/-- No constructor builds an application that is written as a constant is. -/
theorem Construction.not_folds {c : Construction} {s : TermSort}
    (h : c.build = .ok (.app c.operator c.operands s)) : ¬ c.operator.Folds c.operands := by
  intro hf
  cases c with
  | eq | xor | ite | not | toReal => cases hf
  | and ts | or ts => cases hf
  | neg x =>
    simp only [operator, operands] at hf
    cases hf with
    | @negInt n hn =>
      obtain ⟨m, hm⟩ := Option.isSome_iff_exists.1 (Word.neg?_isSome hn)
      simp only [build, Term.int, Term.mkNeg, hm] at h
      cases h
    | negReal q => cases h
  | arith op l r =>
    simp only [operator, operands] at hf
    cases hf with
    | div p hq =>
      simp only [build, Term.mkArith, Term.foldArith, Term.real, Term.foldReal, if_neg hq] at h
      cases h
  | compare op l r =>
    simp only [operator, operands] at hf
    cases hf with
    | div p hq => cases h

namespace Vocabulary

variable {V : Vocabulary} {t t' : Term} {s : String}

/-- The terms of the vocabulary whose sorts fit and in which nothing is left that is always
folded. -/
inductive Written (V : Vocabulary) : Term → Prop
  | const {c : Constant} : (∀ e i, c = .tag e i → V.Has (.variant e i)) → Written V (.const c)
  | var {v : Variable} : V.Has (.var v) → Written V (.var v)
  | app {op : Operator} {ts : List Term} {s : TermSort} : (∀ x ∈ ts, Written V x) →
    op.Signature (ts.map Term.sort) s → ¬ op.Folds ts → Written V (.app op ts s)

theorem Checked.written (h : V.Checked t) : V.Written t := by
  induction h with
  | const hc => exact .const hc
  | var hv => exact .var hv
  | @build c t _ hbuild ih =>
    obtain ⟨-, hgives⟩ := Construction.build_ok hbuild
    cases hgives with
    | app hsig => exact .app ih hsig (Construction.not_folds hbuild)
    | folded hf =>
      obtain ⟨-, k, rfl, hk⟩ := hf
      exact .const fun e i hi => absurd hi (hk e i)
    | same hc =>
      subst hc
      exact ih t List.mem_cons_self

end Vocabulary

/-! ### Atoms -/

/-- The text does not start with a digit. -/
def Symbol.IsWord (s : String) : Prop := ∀ c ∈ s.toList.head?, ¬ Ascii.isDigit c

theorem Symbol.isWord_quote (name : String) : IsWord (quote name) := by
  intro c hc
  rw [quote, String.toList_ofList, quoteChars] at hc
  split at hc
  · next h =>
    cases hname : name.toList with
    | nil => rw [hname] at h; cases h
    | cons d ds =>
      rw [hname] at h hc
      obtain rfl := Option.some.inj hc
      simp only [isSimple, Bool.and_eq_true] at h
      simpa using h.1
  · obtain rfl := Option.some.inj hc
    decide

/-- A number is not written as a word, whatever stands after its digits. -/
theorem Symbol.IsWord.ne_numeral {s : String} (h : IsWord s) (n : Nat) (tail : String) :
    toString n ++ tail ≠ s := by
  rintro rfl
  obtain ⟨c, cs, hcs, hc⟩ := toString_head n
  exact h c (by rw [String.toList_append, hcs]; rfl) hc

theorem Symbol.IsWord.ne_natural {s : String} (h : IsWord s) (n : Nat) : toString n ≠ s := by
  have hne := h.ne_numeral n ""
  rwa [String.append_empty] at hne

theorem decimal_ne_natural (n k : Nat) : toString n ++ ".0" ≠ toString k := by
  intro h
  have hmem : '.' ∈ (toString k).toList := by
    rw [← h, String.toList_append]
    exact List.mem_append_right _ (by decide)
  exact absurd (isDigit_of_mem_toString hmem) (by decide)

theorem decimal_inj {n k : Nat} (h : toString n ++ ".0" = toString k ++ ".0") : n = k := by
  have hlist := congrArg String.toList h
  rw [String.toList_append, String.toList_append] at hlist
  exact Nat.repr_injective (String.toList_inj.1 (List.append_cancel_right hlist))

/-! ### Numbers -/

namespace Constant

variable {n m : Word} {p q : Rat} {s : String}

theorem intSexp_inj (h : intSexp n = intSexp m) : n = m := by
  refine Word.ext ?_
  unfold intSexp negated at h
  split at h <;> split at h
  · have := Nat.repr_injective (Sexp.atom.inj (List.cons.inj (List.cons.inj (Sexp.list.inj h)).2).1)
    omega
  · cases h
  · cases h
  · have := Nat.repr_injective (Sexp.atom.inj h)
    omega

theorem magnitude_inj (h : magnitude p = magnitude q) :
    p.num.natAbs = q.num.natAbs ∧ p.den = q.den := by
  unfold magnitude at h
  split at h <;> split at h
  · next hp hq => exact ⟨decimal_inj (Sexp.atom.inj h), hp.trans hq.symm⟩
  · cases h
  · cases h
  · obtain ⟨hnum, hrest⟩ := List.cons.inj (List.cons.inj (Sexp.list.inj h)).2
    exact ⟨decimal_inj (Sexp.atom.inj hnum),
      decimal_inj (Sexp.atom.inj (List.cons.inj hrest).1)⟩

theorem magnitude_ne_negated {x : Sexp} : magnitude p ≠ negated x := by
  unfold magnitude negated
  split <;> simp

theorem realSexp_inj (h : realSexp p = realSexp q) : p = q := by
  have hext : ∀ {p q : Rat}, (p.num < 0 ↔ q.num < 0) → magnitude p = magnitude q → p = q :=
    fun hs hm => by
      obtain ⟨hnum, hden⟩ := magnitude_inj hm
      exact Rat.ext (by omega) hden
  unfold realSexp at h
  split at h <;> split at h
  · next hp hq =>
    exact hext (by simp [hp, hq]) (List.cons.inj (List.cons.inj (Sexp.list.inj h)).2).1
  · exact absurd h.symm magnitude_ne_negated
  · exact absurd h magnitude_ne_negated
  · next hp hq => exact hext (by simp [hp, hq]) h

theorem intSexp_eq_atom (h : intSexp n = .atom s) : 0 ≤ n.val ∧ s = toString n.val.natAbs := by
  unfold intSexp negated at h
  split at h
  · cases h
  · next hn => exact ⟨by omega, (Sexp.atom.inj h).symm⟩

theorem realSexp_eq_atom (h : realSexp q = .atom s) : s = toString q.num.natAbs ++ ".0" := by
  unfold realSexp negated magnitude at h
  split at h
  · cases h
  · split at h
    · exact (Sexp.atom.inj h).symm
    · cases h

theorem intSexp_ne_word (h : Symbol.IsWord s) : intSexp n ≠ .atom s := fun hn =>
  h.ne_natural _ (intSexp_eq_atom hn).2.symm

theorem realSexp_ne_word (h : Symbol.IsWord s) : realSexp q ≠ .atom s := fun hq =>
  h.ne_numeral _ _ (realSexp_eq_atom hq).symm

theorem intSexp_ne_realSexp : intSexp n ≠ realSexp q := by
  intro h
  unfold intSexp negated realSexp negated at h
  split at h <;> split at h
  · have hmag := (List.cons.inj (List.cons.inj (Sexp.list.inj h)).2).1
    unfold magnitude at hmag
    split at hmag
    · exact decimal_ne_natural _ _ (Sexp.atom.inj hmag).symm
    · cases hmag
  · exact magnitude_ne_negated h.symm
  · cases h
  · unfold magnitude at h
    split at h
    · exact decimal_ne_natural _ _ (Sexp.atom.inj h).symm
    · cases h

end Constant

/-! ### Terms -/

theorem Operator.Signature.not_neg_of_sub {ss : List TermSort} {r r' : TermSort}
    (h : Operator.Signature .sub ss r) : ¬ Operator.Signature .neg ss r' := by
  intro h'
  cases h with
  | sub _ =>
    cases h' with
    | order hop => cases hop
  | order hop => cases hop

theorem Named.symbol_of_term? {a : Named} {t : Term} (h : a.term? = some t) :
    t.sexp = .atom a.symbol := by
  cases a <;> cases h <;> rfl

theorem Named.isWord (a : Named) : Symbol.IsWord a.symbol := by
  cases a <;> exact Symbol.isWord_quote _

/-- The text of a truth value. -/
def Term.boolText (b : Bool) : String := if b then "true" else "false"

theorem Term.isWord_boolText (b : Bool) : Symbol.IsWord (boolText b) := by
  cases b <;> rintro c hc <;> obtain rfl := Option.some.inj hc <;> decide

namespace Vocabulary

variable {V : Vocabulary} {x t t' : Term} {s : String}

/-- A truth value or something that the vocabulary names, with the word for it. -/
inductive Worded (V : Vocabulary) : Term → String → Prop
  | bool (b : Bool) : Worded V (.bool b) (Term.boolText b)
  | named {a : Named} {t : Term} : V.Has a → a.term? = some t → Worded V t a.symbol

theorem Worded.sexp_eq (h : V.Worded t s) : t.sexp = .atom s ∧ Symbol.IsWord s := by
  cases h with
  | bool b => exact ⟨rfl, Term.isWord_boolText b⟩
  | @named a _ _ ha => exact ⟨Named.symbol_of_term? ha, a.isWord⟩

theorem boolText_mem_builtin (b : Bool) : Term.boolText b ∈ builtinSymbols := by
  cases b <;> decide

theorem Worded.inj (hV : V.Distinct) (h : V.Worded t s) (h' : V.Worded t' s) : t = t' := by
  generalize hs : s = r at h'
  cases h with
  | bool b =>
    cases h' with
    | bool c => cases b <;> cases c <;> first | rfl | exact absurd hs (by decide)
    | named hin _ => exact absurd (hs ▸ boolText_mem_builtin b) (hV.not_builtin hin)
  | named hin ha =>
    cases h' with
    | bool b => exact absurd (hs ▸ boolText_mem_builtin b) (hV.not_builtin hin)
    | named hin' ha' =>
      obtain rfl := hV.unique hin hin' hs
      exact Option.some.inj (ha.symm.trans ha')

/-- The terms that are no applications: numbers, and what is written as a word. -/
inductive Leaf (V : Vocabulary) : Term → Prop
  | int (n : Word) : Leaf V (.int n)
  | real (q : Rat) : Leaf V (.real q)
  | word {t : Term} {s : String} : V.Worded t s → Leaf V t

/-- Two leaves that are written alike are equal. -/
theorem Leaf.sexp_inj (hV : V.Distinct) (h : V.Leaf t) (h' : V.Leaf t') (hs : t.sexp = t'.sexp) :
    t = t' := by
  cases h with
  | int n =>
    cases h' with
    | int m => rw [Constant.intSexp_inj hs]
    | real q => exact absurd hs Constant.intSexp_ne_realSexp
    | word hw => exact absurd (hs.trans hw.sexp_eq.1) (Constant.intSexp_ne_word hw.sexp_eq.2)
  | real p =>
    cases h' with
    | int m => exact absurd hs.symm Constant.intSexp_ne_realSexp
    | real q => rw [Constant.realSexp_inj hs]
    | word hw => exact absurd (hs.trans hw.sexp_eq.1) (Constant.realSexp_ne_word hw.sexp_eq.2)
  | word hw =>
    obtain ⟨hsexp, hword⟩ := hw.sexp_eq
    cases h' with
    | int m => exact absurd (hs.symm.trans hsexp) (Constant.intSexp_ne_word hword)
    | real q => exact absurd (hs.symm.trans hsexp) (Constant.realSexp_ne_word hword)
    | word hw' =>
      obtain rfl := Sexp.atom.inj (hsexp.symm.trans (hs.trans hw'.sexp_eq.1))
      exact hw.inj hV hw'

theorem leaf_const {c : Constant} (hc : ∀ e i, c = .tag e i → V.Has (.variant e i)) :
    V.Leaf (.const c) := by
  cases c with
  | int n => exact .int n
  | real q => exact .real q
  | bool b => exact .word (.bool b)
  | tag e i => exact .word (.named (hc e i rfl) rfl)

theorem leaf_var {v : Variable} (hv : V.Has (.var v)) : V.Leaf (.var v) := .word (.named hv rfl)

/-- A term is a leaf or an application of written terms. -/
theorem Written.leaf_or_app (h : V.Written t) : V.Leaf t ∨
    ∃ op ts s, t = .app op ts s ∧ (∀ x ∈ ts, V.Written x) ∧ op.Signature (ts.map Term.sort) s ∧
      ¬ op.Folds ts := by
  cases h with
  | const hc => exact .inl (leaf_const hc)
  | var hv => exact .inl (leaf_var hv)
  | app hts hsig hf => exact .inr ⟨_, _, _, rfl, hts, hsig, hf⟩

theorem Written.leaf_of_atom (h : V.Written x) (hx : x.sexp = .atom s) : V.Leaf x := by
  rcases h.leaf_or_app with hl | ⟨op, ts, r, rfl, -⟩
  · exact hl
  · cases hx

/-! ### Constants are no applications -/

/-- What is written as a natural number is an integer constant. -/
theorem Written.eq_int (h : V.Written x) {k : Nat} (hx : x.sexp = .atom (toString k)) :
    ∃ m, x = .int m ∧ 0 ≤ m.val := by
  cases h.leaf_of_atom hx with
  | int m => exact ⟨m, rfl, (Constant.intSexp_eq_atom hx).1⟩
  | real q => exact absurd (Constant.realSexp_eq_atom hx).symm (decimal_ne_natural _ _)
  | word hw =>
    obtain ⟨hsexp, hword⟩ := hw.sexp_eq
    exact absurd (Sexp.atom.inj (hx.symm.trans hsexp)) (hword.ne_natural k)

/-- What is written as a decimal is a real constant. -/
theorem Written.eq_real (h : V.Written x) {k : Nat} (hx : x.sexp = .atom (toString k ++ ".0")) :
    ∃ q, x = .real q ∧ q.num.natAbs = k := by
  cases h.leaf_of_atom hx with
  | int m => exact absurd (Constant.intSexp_eq_atom hx).2 (decimal_ne_natural _ _)
  | real q => exact ⟨q, rfl, decimal_inj (Constant.realSexp_eq_atom hx).symm⟩
  | word hw =>
    obtain ⟨hsexp, hword⟩ := hw.sexp_eq
    exact absurd (Sexp.atom.inj (hx.symm.trans hsexp)) (hword.ne_numeral k ".0")

theorem operator_of_slash {op : Operator} (h : op.symbol = "/") : op = .div := by
  cases op <;> first | rfl | exact absurd h (by decide)

/-- What is written as a magnitude is a real constant: a division of constants that is written so is
folded. -/
theorem Written.eq_real_of_magnitude (h : V.Written x) {q : Rat}
    (hx : x.sexp = Constant.magnitude q) : ∃ p, x = .real p := by
  unfold Constant.magnitude at hx
  split at hx
  · obtain ⟨p, rfl, -⟩ := h.eq_real hx
    exact ⟨p, rfl⟩
  · rcases h.leaf_or_app with hl | ⟨op, ts, r, rfl, hts, -, hf⟩
    · cases hl with
      | int n =>
        change Constant.intSexp n = _ at hx
        unfold Constant.intSexp Constant.negated at hx
        split at hx <;> simp at hx
      | real p => exact ⟨p, rfl⟩
      | word hw => cases hw.sexp_eq.1.symm.trans hx
    · rw [Term.sexp, Term.sexps_eq_map] at hx
      obtain ⟨hop, hargs⟩ := List.cons.inj (Sexp.list.inj hx)
      obtain rfl := operator_of_slash (Sexp.atom.inj hop)
      obtain ⟨y, ys, rfl, hy, hargs⟩ := List.map_eq_cons_iff.1 hargs
      obtain ⟨z, zs, rfl, hz, hargs⟩ := List.map_eq_cons_iff.1 hargs
      obtain rfl := List.map_eq_nil_iff.1 hargs
      obtain ⟨a, rfl, -⟩ := (hts y List.mem_cons_self).eq_real hy
      obtain ⟨b, rfl, hb⟩ := (hts z (List.mem_cons_of_mem _ List.mem_cons_self)).eq_real hz
      refine absurd (.div a fun hzero => ?_) hf
      subst hzero
      exact q.den_nz hb.symm

/-- An application that is written as the negative of something is a negation. -/
theorem neg_of_sexp {op : Operator} {ts : List Term} {r : TermSort} {y : Sexp}
    (hsig : op.Signature (ts.map Term.sort) r)
    (h : (Term.app op ts r).sexp = Constant.negated y) :
    op = .neg ∧ ∃ x, ts = [x] ∧ x.sexp = y := by
  rw [Term.sexp, Term.sexps_eq_map] at h
  obtain ⟨hop, hargs⟩ := List.cons.inj (Sexp.list.inj h)
  obtain ⟨x, xs, rfl, hx, hargs⟩ := List.map_eq_cons_iff.1 hargs
  obtain rfl := List.map_eq_nil_iff.1 hargs
  refine ⟨?_, x, rfl, hx⟩
  cases op <;> first
    | rfl
    | exact absurd (Sexp.atom.inj hop) (by decide)
    | (rw [List.map] at hsig; cases hsig)

/-- A constant is not written as an application is. -/
theorem Leaf.ne_app (h : V.Leaf t) {op : Operator} {ts : List Term} {r : TermSort}
    (hts : ∀ x ∈ ts, V.Written x) (hsig : op.Signature (ts.map Term.sort) r)
    (hf : ¬ op.Folds ts) : t.sexp ≠ (Term.app op ts r).sexp := by
  intro heq
  cases h with
  | int n =>
    change Constant.intSexp n = _ at heq
    unfold Constant.intSexp at heq
    split at heq
    · obtain ⟨rfl, x, rfl, hx⟩ := neg_of_sexp hsig heq.symm
      obtain ⟨m, rfl, hm⟩ := (hts x List.mem_cons_self).eq_int hx
      exact hf (.negInt hm)
    · cases heq
  | real q =>
    change Constant.realSexp q = _ at heq
    unfold Constant.realSexp at heq
    split at heq
    · obtain ⟨rfl, x, rfl, hx⟩ := neg_of_sexp hsig heq.symm
      obtain ⟨p, rfl⟩ := (hts x List.mem_cons_self).eq_real_of_magnitude hx
      exact hf (.negReal p)
    · obtain ⟨p, hp⟩ := (Written.app hts hsig hf).eq_real_of_magnitude heq.symm
      cases hp
  | word hw => cases hw.sexp_eq.1.symm.trans heq

/-! ### Terms are determined by what is written -/

/-- Operators that share a symbol differ in the number of their operands. -/
theorem operator_inj {op op' : Operator} {ss : List TermSort} {r r' : TermSort}
    (h : op.Signature ss r) (h' : op'.Signature ss r') (hop : op.symbol = op'.symbol) :
    op = op' := by
  -- the only two of one symbol are the difference and the negative
  have hcases : op = op' ∨ op = .sub ∧ op' = .neg ∨ op = .neg ∧ op' = .sub := by
    cases op <;> cases op' <;> first
      | exact .inl rfl
      | exact .inr (.inl ⟨rfl, rfl⟩)
      | exact .inr (.inr ⟨rfl, rfl⟩)
      | simp [Operator.symbol] at hop
  rcases hcases with h | ⟨rfl, rfl⟩ | ⟨rfl, rfl⟩
  · exact h
  · exact absurd h' (h.not_neg_of_sub)
  · exact absurd h (h'.not_neg_of_sub)

theorem map_sexp_inj {ts : List Term}
    (ih : ∀ x ∈ ts, ∀ {y : Term}, V.Written y → x.sexp = y.sexp → x = y) :
    ∀ {ts' : List Term}, (∀ y ∈ ts', V.Written y) → ts.map Term.sexp = ts'.map Term.sexp →
      ts = ts' := by
  induction ts with
  | nil => exact fun _ h => (List.map_eq_nil_iff.1 h.symm).symm
  | cons x xs ihl =>
    rintro (_ | ⟨y, ys⟩) hts' h
    · cases h
    · obtain ⟨hx, hxs⟩ := List.cons.inj h
      obtain rfl := ih x List.mem_cons_self (hts' y List.mem_cons_self) hx
      exact congrArg _ (ihl (fun z hz => ih z (List.mem_cons_of_mem _ hz))
        (fun z hz => hts' z (List.mem_cons_of_mem _ hz)) hxs)

theorem Leaf.eq_of_sexp (hV : V.Distinct) (h : V.Leaf t) (h' : V.Written t')
    (hs : t.sexp = t'.sexp) : t = t' := by
  rcases h'.leaf_or_app with hl | ⟨op, ts, r, rfl, hts, hsig, hf⟩
  · exact h.sexp_inj hV hl hs
  · exact absurd hs (h.ne_app hts hsig hf)

/-- **What is written for a term determines the term.** -/
theorem Written.sexp_inj (hV : V.Distinct) (h : V.Written t) (h' : V.Written t')
    (hs : t.sexp = t'.sexp) : t = t' := by
  induction h generalizing t' with
  | const hc => exact (leaf_const hc).eq_of_sexp hV h' hs
  | var hv => exact (leaf_var hv).eq_of_sexp hV h' hs
  | @app op ts r hts hsig hf ih =>
    rcases h'.leaf_or_app with hl | ⟨op', ts', r', rfl, hts', hsig', hf'⟩
    · exact absurd hs.symm (hl.ne_app hts hsig hf)
    · rw [Term.sexp, Term.sexp, Term.sexps_eq_map, Term.sexps_eq_map] at hs
      obtain ⟨hop, hargs⟩ := List.cons.inj (Sexp.list.inj hs)
      obtain rfl := map_sexp_inj (fun x hx y hy hxy => ih x hx hy hxy) hts' hargs
      obtain rfl := operator_inj hsig hsig' (Sexp.atom.inj hop)
      rw [hsig.unique hsig']

end Vocabulary

end HybridStep
