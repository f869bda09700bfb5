import Mathlib.Data.List.Induction
import Mathlib.Data.List.TakeWhile
import Mathlib.Data.Nat.Digits.Defs
import Mathlib.Data.Rat.Cast.Defs
import Mathlib.Tactic.IntervalCases
import Mathlib.Tactic.NormNum
import Mathlib.Tactic.Ring
import HybridStep.Number.Decimal

/-! # Decimal texts

The texts that are read as decimal numbers are exactly the written ones: an optional sign, digits
with an optional point, and an optional exponent. The number read is the exact value of what is
written. -/

namespace HybridStep.Decimal

open Ascii (isDigit digitValue natOfDigits)

/-! ### What is written -/

/-- A written sign. -/
inductive Sign
  | plus
  | minus
deriving DecidableEq, Repr

namespace Sign

/-- The character of a sign. -/
def char : Sign → Char
  | plus => '+'
  | minus => '-'

/-- The characters of an optional sign. -/
def chars : Option Sign → List Char
  | none => []
  | some sign => [sign.char]

/-- What an optional sign multiplies by. -/
def factor : Option Sign → ℤ
  | some minus => -1
  | _ => 1

end Sign

/-- The characters of digits. -/
def digitChars (ds : List (Fin 10)) : List Char := ds.map fun d : Fin 10 => Nat.digitChar d

/-- The number that digits denote, the most significant one first. -/
def number (ds : List (Fin 10)) : ℕ := Nat.ofDigits 10 (ds.reverse.map Fin.val)

/-- A written exponent. -/
structure Exponent where
  mark : Char
  sign : Option Sign
  digits : List (Fin 10)
  mark_eq : mark = 'e' ∨ mark = 'E'
  digits_ne_nil : digits ≠ []
  number_le : number digits ≤ 4096

namespace Exponent

/-- The characters of an optional exponent. -/
def chars : Option Exponent → List Char
  | none => []
  | some x => x.mark :: (Sign.chars x.sign ++ digitChars x.digits)

/-- The power of ten, zero without an exponent. -/
def value : Option Exponent → ℤ
  | none => 0
  | some x => Sign.factor x.sign * number x.digits

end Exponent

/-- A written decimal. The fraction is there if there is a point, and may have no digits as long as
there are digits before the point. -/
structure Written where
  sign : Option Sign
  whole : List (Fin 10)
  fraction : Option (List (Fin 10))
  exponent : Option Exponent
  digits_ne_nil : whole ++ fraction.getD [] ≠ []

/-- The characters from the point on. -/
def pointChars : Option (List (Fin 10)) → List Char
  | none => []
  | some ds => '.' :: digitChars ds

namespace Written

/-- The characters before the exponent. -/
def mantissaChars (w : Written) : List Char :=
  Sign.chars w.sign ++ (digitChars w.whole ++ pointChars w.fraction)

/-- The characters of a written decimal. -/
def chars (w : Written) : List Char := w.mantissaChars ++ Exponent.chars w.exponent

/-- The digits without the point, signed, times ten to the exponent less the number of digits after
the point. -/
def value (w : Written) : ℚ :=
  Sign.factor w.sign * number (w.whole ++ w.fraction.getD []) *
    10 ^ (Exponent.value w.exponent - (w.fraction.getD []).length)

end Written

/-! ### Digits -/

theorem isDigit_iff {c : Char} : isDigit c = true ↔ ∃ d : Fin 10, c = Nat.digitChar d := by
  constructor
  · intro h
    obtain ⟨hlow, hhigh⟩ := Bool.and_eq_true_iff.1 h
    have hlow : 48 ≤ c.toNat := of_decide_eq_true hlow
    have hhigh : c.toNat ≤ 57 := of_decide_eq_true hhigh
    obtain ⟨n, hn⟩ : ∃ n, c.toNat = n := ⟨_, rfl⟩
    have hc : c = Char.ofNat n := by rw [← hn, Char.ofNat_toNat]
    rw [hn] at hlow hhigh
    have hlt : n - 48 < 10 := by omega
    refine ⟨⟨n - 48, hlt⟩, ?_⟩
    rw [hc]
    interval_cases n <;> rfl
  · rintro ⟨d, rfl⟩
    revert d
    decide

theorem digitValue_digitChar : ∀ d : Fin 10, digitValue (Nat.digitChar d) = d := by decide

theorem digitChars_append (ds es : List (Fin 10)) :
    digitChars (ds ++ es) = digitChars ds ++ digitChars es := List.map_append

theorem digitChars_eq_nil {ds : List (Fin 10)} : digitChars ds = [] ↔ ds = [] :=
  List.map_eq_nil_iff

theorem length_digitChars (ds : List (Fin 10)) : (digitChars ds).length = ds.length :=
  List.length_map ..

theorem isDigit_of_mem {ds : List (Fin 10)} {c : Char} (h : c ∈ digitChars ds) :
    isDigit c = true := by
  obtain ⟨d, -, rfl⟩ := List.mem_map.1 h
  exact isDigit_iff.2 ⟨d, rfl⟩

/-- The texts of digits alone. -/
theorem all_isDigit_iff {cs : List Char} : cs.all isDigit = true ↔ ∃ ds, cs = digitChars ds := by
  constructor
  · intro h
    induction cs with
    | nil => exact ⟨[], rfl⟩
    | cons c cs ih =>
      rw [List.all_cons, Bool.and_eq_true] at h
      obtain ⟨d, rfl⟩ := isDigit_iff.1 h.1
      obtain ⟨ds, rfl⟩ := ih h.2
      exact ⟨d :: ds, rfl⟩
  · rintro ⟨ds, rfl⟩
    exact List.all_eq_true.2 fun c hc => isDigit_of_mem hc

/-- Folding over the digits from the first to the last computes the number. -/
theorem natOfDigits_digitChars (ds : List (Fin 10)) : natOfDigits (digitChars ds) = number ds := by
  induction ds using List.reverseRecOn with
  | nil => rfl
  | append_singleton ds d ih =>
    have hread : natOfDigits (digitChars (ds ++ [d])) =
        10 * natOfDigits (digitChars ds) + digitValue (Nat.digitChar d) := by
      rw [digitChars_append]
      exact List.foldl_append
    have hnumber : number (ds ++ [d]) = d + 10 * number ds := by
      unfold number
      rw [List.reverse_concat, List.map_cons, Nat.ofDigits_cons]
    rw [hread, ih, digitValue_digitChar, hnumber, Nat.add_comm]

theorem digits?_eq_some {cs : List Char} {n : ℕ} :
    digits? cs = some n ↔ ∃ ds, ds ≠ [] ∧ cs = digitChars ds ∧ number ds = n := by
  unfold digits?
  constructor
  · intro h
    split at h
    · rename_i hcs
      obtain ⟨ds, rfl⟩ := all_isDigit_iff.1 hcs.2
      refine ⟨ds, fun hds => hcs.1 (digitChars_eq_nil.2 hds), rfl, ?_⟩
      rw [← natOfDigits_digitChars]
      exact Option.some.inj h
    · exact absurd h nofun
  · rintro ⟨ds, hne, rfl, rfl⟩
    rw [if_pos ⟨fun h => hne (digitChars_eq_nil.1 h), all_isDigit_iff.2 ⟨ds, rfl⟩⟩,
      natOfDigits_digitChars]

/-! ### Signs -/

/-- Every text is an optional sign and a rest. -/
theorem splitSign_spec (cs : List Char) : ∃ sign rest, cs = Sign.chars sign ++ rest ∧
    splitSign cs = (decide (sign = some .minus), rest) := by
  unfold splitSign
  split
  · exact ⟨some .minus, _, rfl, rfl⟩
  · exact ⟨some .plus, _, rfl, rfl⟩
  · exact ⟨none, cs, rfl, rfl⟩

/-- A sign is found again before a text that starts with no sign. -/
theorem splitSign_chars (sign : Option Sign) {rest : List Char}
    (h : ∀ s : Sign, rest.head? ≠ some s.char) :
    splitSign (Sign.chars sign ++ rest) = (decide (sign = some .minus), rest) := by
  match sign with
  | some .plus => rfl
  | some .minus => rfl
  | none =>
    rw [Sign.chars, List.nil_append]
    unfold splitSign
    split
    · exact absurd rfl (h .minus)
    · exact absurd rfl (h .plus)
    · rfl

theorem Sign.not_isDigit (s : Sign) : isDigit s.char = false := by
  cases s <;> rfl

theorem Sign.factor_eq (sign : Option Sign) (n : ℤ) :
    (if decide (sign = some .minus) = true then -n else n) = Sign.factor sign * n := by
  match sign with
  | some .plus => exact (one_mul n).symm
  | some .minus => exact (neg_one_mul n).symm
  | none => exact (one_mul n).symm

/-- A sign leaves the magnitude alone. -/
theorem Sign.natAbs_factor_mul (sign : Option Sign) (n : ℕ) :
    (Sign.factor sign * n).natAbs = n := by
  have hfactor : (Sign.factor sign).natAbs = 1 := by
    match sign with
    | some .plus => rfl
    | some .minus => rfl
    | none => rfl
  rw [Int.natAbs_mul, hfactor, Int.natAbs_natCast, one_mul]

theorem head?_digitChars_ne {ds : List (Fin 10)} (s : Sign) :
    (digitChars ds).head? ≠ some s.char := by
  intro h
  have hdigit := isDigit_of_mem (List.mem_of_mem_head? h)
  rw [Sign.not_isDigit] at hdigit
  exact Bool.false_ne_true hdigit

theorem int?_eq_some {cs : List Char} {e : ℤ} : int? cs = some e ↔
    ∃ sign ds, ds ≠ [] ∧ cs = Sign.chars sign ++ digitChars ds ∧
      Sign.factor sign * number ds = e := by
  constructor
  · intro h
    obtain ⟨sign, rest, rfl, hsplit⟩ := splitSign_spec cs
    unfold int? at h
    rw [hsplit] at h
    obtain ⟨_, hn, rfl⟩ := Option.map_eq_some_iff.1 h
    obtain ⟨n, hn, hcast⟩ := Option.bind_eq_some_iff.1 hn
    obtain ⟨ds, hne, rfl, rfl⟩ := digits?_eq_some.1 hn
    obtain rfl := Option.some.inj hcast
    exact ⟨sign, ds, hne, rfl, (Sign.factor_eq sign _).symm⟩
  · rintro ⟨sign, ds, hne, rfl, rfl⟩
    unfold int?
    rw [splitSign_chars sign head?_digitChars_ne, ← Sign.factor_eq]
    have hn : digits? (digitChars ds) = some (number ds) := digits?_eq_some.2 ⟨ds, hne, rfl, rfl⟩
    refine Option.map_eq_some_iff.2 ⟨number ds, ?_, rfl⟩
    exact Option.bind_eq_some_iff.2 ⟨number ds, hn, rfl⟩

/-! ### Cutting at the mark and at the point -/

theorem cut_of_forall {p : Char → Bool} {cs : List Char} (h : ∀ c ∈ cs, p c = false) :
    cut p cs = (cs, none) := by
  have hdrop : cs.dropWhile (fun c => !p c) = [] :=
    List.dropWhile_eq_nil_iff.2 fun c hc => by rw [h c hc]; rfl
  rw [cut, hdrop]

theorem cut_append {p : Char → Bool} {before after : List Char} {c : Char}
    (h : ∀ d ∈ before, p d = false) (hc : p c = true) :
    cut p (before ++ c :: after) = (before, some after) := by
  have hbefore : ∀ d ∈ before, (!p d) = true := fun d hd => by rw [h d hd]; rfl
  have hstop : ¬ (!p c) = true := by rw [hc]; exact Bool.false_ne_true
  have hdrop : (before ++ c :: after).dropWhile (fun c => !p c) = c :: after := by
    rw [List.dropWhile_append_of_pos hbefore]
    exact List.dropWhile_cons_of_neg hstop
  have htake : (before ++ c :: after).takeWhile (fun c => !p c) = before := by
    rw [List.takeWhile_append_of_pos hbefore]
    exact (congrArg (before ++ ·) (List.takeWhile_cons_of_neg hstop)).trans (List.append_nil before)
  rw [cut, hdrop, htake]

/-- A text has no character with `p`, or it is cut at the first of them. -/
theorem cut_cases (p : Char → Bool) (cs : List Char) :
    ((∀ c ∈ cs, p c = false) ∧ cut p cs = (cs, none)) ∨
      ∃ before c after, cs = before ++ c :: after ∧ (∀ d ∈ before, p d = false) ∧ p c = true ∧
        cut p cs = (before, some after) := by
  have hfirst : (∀ c ∈ cs, p c = false) ∨ ∃ before c after, cs = before ++ c :: after ∧
      (∀ d ∈ before, p d = false) ∧ p c = true := by
    induction cs with
    | nil => exact .inl fun c hc => absurd hc List.not_mem_nil
    | cons c cs ih =>
      cases hc : p c with
      | true => exact .inr ⟨[], c, cs, rfl, fun d hd => absurd hd List.not_mem_nil, hc⟩
      | false =>
        rcases ih with hall | ⟨before, d, after, rfl, hbefore, hd⟩
        · exact .inl (List.forall_mem_cons.2 ⟨hc, hall⟩)
        · exact .inr ⟨c :: before, d, after, rfl, List.forall_mem_cons.2 ⟨hc, hbefore⟩, hd⟩
  rcases hfirst with hall | ⟨before, c, after, rfl, hbefore, hc⟩
  · exact .inl ⟨hall, cut_of_forall hall⟩
  · exact .inr ⟨before, c, after, rfl, hbefore, hc, cut_append hbefore hc⟩

/-- What is read around the exponent mark is an optional exponent after a text without marks. -/
theorem cut_mark_iff {cs mantissa : List Char} {e : ℤ} :
    (∃ mark, cut (fun c => c == 'e' || c == 'E') cs = (mantissa, mark) ∧ exponent? mark = some e) ↔
      (∀ c ∈ mantissa, (c == 'e' || c == 'E') = false) ∧
        ∃ x, cs = mantissa ++ Exponent.chars x ∧ Exponent.value x = e := by
  constructor
  · rintro ⟨mark, hcut, he⟩
    rcases cut_cases (fun c => c == 'e' || c == 'E') cs with
      ⟨hall, hcut'⟩ | ⟨before, c, after, rfl, hbefore, hc, hcut'⟩
    · obtain ⟨rfl, rfl⟩ := Prod.mk.inj (hcut'.symm.trans hcut)
      exact ⟨hall, none, (List.append_nil cs).symm, Option.some.inj he⟩
    · obtain ⟨rfl, rfl⟩ := Prod.mk.inj (hcut'.symm.trans hcut)
      obtain ⟨he, hsmall⟩ := Option.filter_eq_some_iff.1 he
      obtain ⟨sign, ds, hne, rfl, rfl⟩ := int?_eq_some.1 he
      have hle : number ds ≤ 4096 := by
        have hsmall := of_decide_eq_true hsmall
        rwa [Sign.natAbs_factor_mul] at hsmall
      rw [Bool.or_eq_true, beq_iff_eq, beq_iff_eq] at hc
      exact ⟨hbefore, some ⟨c, sign, ds, hc, hne, hle⟩, rfl, rfl⟩
  · rintro ⟨hall, x, rfl, rfl⟩
    cases x with
    | none => exact ⟨none, by rw [Exponent.chars, List.append_nil]; exact cut_of_forall hall, rfl⟩
    | some x =>
      have hmark : (x.mark == 'e' || x.mark == 'E') = true := by
        rw [Bool.or_eq_true, beq_iff_eq, beq_iff_eq]
        exact x.mark_eq
      refine ⟨some (Sign.chars x.sign ++ digitChars x.digits), cut_append hall hmark, ?_⟩
      have hint :
          int? (Sign.chars x.sign ++ digitChars x.digits) = some (Exponent.value (some x)) :=
        int?_eq_some.2 ⟨x.sign, x.digits, x.digits_ne_nil, rfl, rfl⟩
      refine Option.filter_eq_some_iff.2 ⟨hint, decide_eq_true ?_⟩
      rw [Exponent.value, Sign.natAbs_factor_mul]
      exact x.number_le

/-- What is read around the point are digits with an optional point. -/
theorem cut_point_iff {cs whole fraction : List Char} :
    (∃ point, cut (· == '.') cs = (whole, point) ∧ fraction = point.getD [] ∧
        (whole ++ fraction).all isDigit = true) ↔
      ∃ ds es, cs = digitChars ds ++ pointChars es ∧ whole = digitChars ds ∧
        fraction = digitChars (es.getD []) := by
  constructor
  · rintro ⟨point, hcut, rfl, hall⟩
    rw [List.all_append, Bool.and_eq_true] at hall
    obtain ⟨ds, rfl⟩ := all_isDigit_iff.1 hall.1
    obtain ⟨es, hes⟩ := all_isDigit_iff.1 hall.2
    rcases cut_cases (· == '.') cs with ⟨-, hcut'⟩ | ⟨before, c, after, rfl, -, hc, hcut'⟩
    · obtain ⟨rfl, rfl⟩ := Prod.mk.inj (hcut'.symm.trans hcut)
      exact ⟨ds, none, (List.append_nil _).symm, rfl, rfl⟩
    · obtain ⟨rfl, rfl⟩ := Prod.mk.inj (hcut'.symm.trans hcut)
      obtain rfl : c = '.' := beq_iff_eq.1 hc
      obtain rfl : after = digitChars es := hes
      exact ⟨ds, some es, rfl, rfl, rfl⟩
  · rintro ⟨ds, es, rfl, rfl, rfl⟩
    have hds : ∀ c ∈ digitChars ds, (c == '.') = false := by
      intro c hc
      refine beq_eq_false_iff_ne.2 ?_
      rintro rfl
      exact absurd (isDigit_of_mem hc) (by decide)
    have hall : (digitChars ds ++ digitChars (es.getD [])).all isDigit = true := by
      rw [← digitChars_append]
      exact all_isDigit_iff.2 ⟨_, rfl⟩
    cases es with
    | none =>
      refine ⟨none, ?_, rfl, hall⟩
      rw [pointChars, List.append_nil]
      exact cut_of_forall hds
    | some es => exact ⟨some (digitChars es), cut_append hds rfl, rfl, hall⟩

/-! ### The value -/

/-- The quotient that is computed is the signed number of all digits, scaled by the exponent and the
length of the fraction. -/
theorem value_eq (sign : Option Sign) (ds es : List (Fin 10)) (e : ℤ) :
    value (decide (sign = some .minus)) (digitChars ds) (digitChars es) e =
      Sign.factor sign * number (ds ++ es) * 10 ^ (e - es.length) := by
  have hten : (10 : ℚ) ≠ 0 := by norm_num
  have hpow : (10 : ℚ) ^ e = 10 ^ e.toNat / 10 ^ (-e).toNat := by
    rw [← zpow_natCast, ← zpow_natCast, ← zpow_sub₀ hten]
    congr 1
    omega
  unfold value
  rw [← digitChars_append, natOfDigits_digitChars, length_digitChars, Rat.mkRat_eq_div,
    Sign.factor_eq, zpow_sub₀ hten, hpow, zpow_natCast]
  have hnum : Int.pow 10 e.toNat = (10 : ℤ) ^ e.toNat := rfl
  have hden : Nat.pow 10 es.length * Nat.pow 10 (-e).toNat = 10 ^ es.length * 10 ^ (-e).toNat := rfl
  rw [hnum, hden]
  push_cast
  rw [mul_div_assoc, div_div, mul_comm (10 ^ es.length)]

/-! ### Reading -/

/-- A mantissa has no exponent mark. -/
theorem Written.not_mark_of_mem (w : Written) :
    ∀ c ∈ w.mantissaChars, (c == 'e' || c == 'E') = false := by
  have hdigits : ∀ ds : List (Fin 10), ∀ c ∈ digitChars ds, (c == 'e' || c == 'E') = false := by
    intro ds c hc
    obtain ⟨d, -, rfl⟩ := List.mem_map.1 hc
    clear hc
    revert d
    decide
  intro c hc
  unfold mantissaChars at hc
  rw [List.mem_append, List.mem_append] at hc
  rcases hc with hc | hc | hc
  · match w.sign, hc with
    | some .plus, hc => rw [List.mem_singleton.1 hc]; rfl
    | some .minus, hc => rw [List.mem_singleton.1 hc]; rfl
  · exact hdigits w.whole c hc
  · match w.fraction, hc with
    | some es, hc =>
      rcases List.mem_cons.1 hc with rfl | hc
      · rfl
      · exact hdigits es c hc

/-- The unsigned mantissa does not start with a sign. -/
theorem head?_mantissa_ne (ds : List (Fin 10)) (es : Option (List (Fin 10))) (s : Sign) :
    (digitChars ds ++ pointChars es).head? ≠ some s.char := by
  match ds, es with
  | [], none => exact nofun
  | [], some es =>
    intro h
    have hpoint : '.' = s.char := Option.some.inj h
    cases s <;> exact absurd hpoint (by decide)
  | d :: ds, es =>
    have hdigits : (digitChars (d :: ds)).head? ≠ some s.char := head?_digitChars_ne s
    exact hdigits

theorem readPlain?_eq_some {cs : List Char} {q : ℚ} :
    readPlain? cs = some q ↔ ∃ w : Written, cs = w.chars ∧ w.value = q := by
  constructor
  · intro h
    unfold readPlain? at h
    rcases hmark : cut (fun c => c == 'e' || c == 'E') cs with ⟨mantissa, mark⟩
    rw [hmark] at h
    obtain ⟨e, he, h⟩ := Option.bind_eq_some_iff.1 h
    obtain ⟨-, x, rfl, rfl⟩ := cut_mark_iff.1 ⟨mark, hmark, he⟩
    obtain ⟨sign, unsigned, rfl, hsign⟩ := splitSign_spec mantissa
    rw [hsign] at h
    rcases hpoint : cut (· == '.') unsigned with ⟨whole, point⟩
    simp only [hpoint] at h
    split at h
    · exact absurd h nofun
    rename_i hsome
    split at h
    · rename_i hall
      obtain ⟨ds, es, rfl, rfl, hes⟩ := cut_point_iff.1 ⟨point, hpoint, rfl, hall⟩
      rw [hes] at h hsome
      have hne : ds ++ es.getD [] ≠ [] := by
        intro hnil
        obtain ⟨hds, hes⟩ := List.append_eq_nil_iff.1 hnil
        exact hsome ⟨digitChars_eq_nil.2 hds, digitChars_eq_nil.2 hes⟩
      refine ⟨⟨sign, ds, es, x, hne⟩, rfl, ?_⟩
      rw [← Option.some.inj h, value_eq]
      rfl
    · exact absurd h nofun
  · rintro ⟨w, rfl, rfl⟩
    obtain ⟨mark, hmark, he⟩ := cut_mark_iff.2 ⟨w.not_mark_of_mem, w.exponent, rfl, rfl⟩
    obtain ⟨point, hpoint, hfraction, hall⟩ := cut_point_iff.2 ⟨w.whole, w.fraction, rfl, rfl, rfl⟩
    have hsign : splitSign w.mantissaChars =
        (decide (w.sign = some .minus), digitChars w.whole ++ pointChars w.fraction) :=
      splitSign_chars w.sign (head?_mantissa_ne w.whole w.fraction)
    have hsome : ¬ (digitChars w.whole = [] ∧ digitChars (w.fraction.getD []) = []) := by
      rintro ⟨hds, hes⟩
      rw [digitChars_eq_nil] at hds hes
      exact w.digits_ne_nil (List.append_eq_nil_iff.2 ⟨hds, hes⟩)
    unfold readPlain? Written.chars
    rw [hmark]
    refine Option.bind_eq_some_iff.2 ⟨_, he, ?_⟩
    simp only [hsign, hpoint]
    rw [← hfraction, if_neg hsome, if_pos hall, value_eq]
    rfl

/-- **Decimal texts are exactly the written decimals, with their value.** After the blanks at both
ends and all underscores are dropped, a text is read as a number if and only if it is a written
decimal, and the number is its value. -/
theorem read?_eq_some_iff (text : String) (q : ℚ) :
    read? text = some q ↔
      ∃ w : Written, (trimBlank text.toList).filter (· ≠ '_') = w.chars ∧ w.value = q :=
  readPlain?_eq_some

end HybridStep.Decimal
