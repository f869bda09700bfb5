import HybridStep.Json.Reader
import HybridStep.Json.Writer
import HybridStep.Proofs.Text.Digits

/-! # Strings and numbers that are read back

A written string is read back to its closing mark, character by character: every escape stands for
the character that it was written for. A written integer is read back up to what follows it, which
has to be neither a digit nor the start of a fraction or an exponent. -/

namespace HybridStep

namespace Json

/-! ### Steps of readers -/

variable {α β : Type}

theorem bind_of_ok {x : Reading α} {f : α → Reading β} {cs rest : List Char} {a : α}
    (h : x cs = .ok (a, rest)) : (x >>= f) cs = f a rest := by
  show StateT.bind x f cs = _
  simp only [StateT.bind, h]
  rfl

theorem map_of_ok {x : Reading α} {f : α → β} {cs rest : List Char} {a : α}
    (h : x cs = .ok (a, rest)) : (f <$> x) cs = .ok (f a, rest) := by
  show StateT.map f x cs = _
  simp only [StateT.map, h]
  rfl

theorem peekSome_cons {c : Char} (h : isSpace c = false) (cs : List Char) :
    peekSome (c :: cs) = .ok (c, c :: cs) := by
  have hpeek : peek (c :: cs) = .ok (some c, c :: cs) := by simp [peek, h]
  rw [peekSome, bind_of_ok hpeek]
  rfl

theorem length_le_flatMap {f : α → List β} (h : ∀ a, f a ≠ []) (l : List α) :
    l.length ≤ (l.flatMap f).length := by
  induction l with
  | nil => exact Nat.zero_le _
  | cons a l ih =>
    have ha := List.length_pos_of_ne_nil (h a)
    rw [List.flatMap_cons, List.length_append, List.length_cons]
    omega

/-! ### Strings -/

/-- A control character is read off the two last digits of its escape. -/
theorem hexUnit_control {c : Char} (h : c.toNat < 0x20) (rest : List Char) :
    hexUnit ('0' :: '0' :: hexDigit (c.toNat / 16) :: hexDigit (c.toNat % 16) :: rest) =
      .ok (c.toNat, rest) := by
  have hdigits : ∀ n < 0x20, Ascii.hexValue? (hexDigit (n / 16)) = some (n / 16) ∧
      Ascii.hexValue? (hexDigit (n % 16)) = some (n % 16) := by decide
  obtain ⟨hhigh, hlow⟩ := hdigits _ h
  have hzero : Ascii.hexValue? '0' = some 0 := rfl
  simp only [hexUnit, hzero, hhigh, hlow]
  congr 2
  omega

theorem numericEscape_control {c : Char} (h : c.toNat < 0x20) (rest : List Char) :
    numericEscape ('0' :: '0' :: hexDigit (c.toNat / 16) :: hexDigit (c.toNat % 16) :: rest) =
      .ok (c, rest) := by
  have htrailing : isTrailing c.toNat = false := by simp [isTrailing]; omega
  have hleading : isLeading c.toNat = false := by simp [isLeading]; omega
  simp only [numericEscape, hexUnit_control h, bind, Except.bind, htrailing, hleading]
  simp [pure, Except.pure]

/-- Puts a character before those that are read after it. -/
abbrev before (c : Char) (r : List Char × List Char) : List Char × List Char := (c :: r.1, r.2)

theorem stringChars_escape {c : Char} {fuel : Nat} {cs rest : List Char}
    (h : escape cs = .ok (c, rest)) : stringChars escape (fuel + 1) ('\\' :: cs) =
      (stringChars escape fuel rest).map (before c) := by
  rw [stringChars, h]
  show (stringChars escape fuel rest >>= fun r => pure (c :: r.1, r.2)) = _
  cases stringChars escape fuel rest <;> rfl

theorem stringChars_plain {c : Char} (hquote : c ≠ '"') (hslash : c ≠ '\\')
    (h : ¬ c.toNat < 0x20) (fuel : Nat) (cs : List Char) :
    stringChars escape (fuel + 1) (c :: cs) = (stringChars escape fuel cs).map (before c) := by
  rw [stringChars, if_neg h]
  · cases stringChars escape fuel cs <;> rfl
  · exact hquote
  · exact hslash

/-- A written character is read back. -/
theorem stringChars_escapeChar (c : Char) (fuel : Nat) (cs : List Char) :
    stringChars escape (fuel + 1) (escapeChar c ++ cs) =
      (stringChars escape fuel cs).map (before c) := by
  unfold escapeChar
  -- one case for each short escape, one for the control characters, one for all others
  split_ifs with hquote hslash hback hform hline hreturn htab hcontrol
  · subst hquote; exact stringChars_escape rfl
  · subst hslash; exact stringChars_escape rfl
  · subst hback; exact stringChars_escape rfl
  · subst hform; exact stringChars_escape rfl
  · subst hline; exact stringChars_escape rfl
  · subst hreturn; exact stringChars_escape rfl
  · subst htab; exact stringChars_escape rfl
  · exact stringChars_escape (numericEscape_control hcontrol cs)
  · exact stringChars_plain hquote hslash hcontrol fuel cs

theorem stringChars_text : ∀ {cs : List Char} {fuel : Nat} (rest : List Char), cs.length < fuel →
    stringChars escape fuel (cs.flatMap escapeChar ++ '"' :: rest) = .ok (cs, rest)
  | [], fuel + 1, rest, _ => rfl
  | c :: cs, fuel + 1, rest, h => by
    rw [List.flatMap_cons, List.append_assoc, stringChars_escapeChar,
      stringChars_text rest (Nat.lt_of_succ_lt_succ h)]
    rfl

theorem toList_stringText (s : String) :
    (stringText s).toList = '"' :: (s.toList.flatMap escapeChar ++ ['"']) :=
  String.toList_ofList

theorem escapeChar_ne_nil (c : Char) : escapeChar c ≠ [] := by
  unfold escapeChar
  split_ifs <;> exact List.cons_ne_nil _ _

/-- **A written string is read back**, whatever follows it. -/
theorem stringBody_text (s : String) (rest : List Char) :
    stringBody (s.toList.flatMap escapeChar ++ '"' :: rest) = .ok (s, rest) := by
  have hlength := length_le_flatMap escapeChar_ne_nil s.toList
  rw [stringBody, stringChars_text rest (by rw [List.length_append, List.length_cons]; omega)]
  exact congrArg (fun s => Except.ok (s, rest)) String.ofList_toList

/-! ### Numbers -/

/-- What may stand after a value. -/
def Ends (rest : List Char) : Prop := ∀ c ∈ rest.head?, c = ',' ∨ c = ']' ∨ c = '\x7d'

theorem ends_nil : Ends [] := fun _ h => nomatch h

theorem ends_cons {c : Char} {rest : List Char} (h : c = ',' ∨ c = ']' ∨ c = '\x7d') :
    Ends (c :: rest) := fun d hd => by
  obtain rfl := Option.some.inj hd
  exact h

variable {rest : List Char}

theorem Ends.notDigit (h : Ends rest) : ∀ c ∈ rest.head?, Ascii.isDigit c = false := fun c hc => by
  rcases h c hc with rfl | rfl | rfl <;> decide

theorem digits_append {ds : List Char} (hds : ∀ c ∈ ds, Ascii.isDigit c)
    (h : ∀ c ∈ rest.head?, Ascii.isDigit c = false) : digits (ds ++ rest) = .ok (ds, rest) := by
  have htake : rest.takeWhile Ascii.isDigit = [] := by
    cases rest with
    | nil => rfl
    | cons c cs => rw [List.takeWhile_cons_of_neg (by simp [h c rfl])]
  have hdrop : rest.dropWhile Ascii.isDigit = rest := by
    cases rest with
    | nil => rfl
    | cons c cs => rw [List.dropWhile_cons_of_neg (by simp [h c rfl])]
  rw [digits, List.takeWhile_append_of_pos hds, List.dropWhile_append_of_pos hds, htake, hdrop,
    List.append_nil]

theorem someDigits_append {ds : List Char} (ended : JsonFault) (hne : ds ≠ [])
    (hds : ∀ c ∈ ds, Ascii.isDigit c) (h : ∀ c ∈ rest.head?, Ascii.isDigit c = false) :
    someDigits ended (ds ++ rest) = .ok (ds, rest) := by
  rw [someDigits, bind_of_ok (digits_append hds h)]
  cases ds with
  | nil => exact absurd rfl hne
  | cons d ds => rfl

theorem wholeDigits_toString (ended : JsonFault) (n : Nat) (h : Ends rest) :
    wholeDigits ended ((toString n).toList ++ rest) = .ok ((toString n).toList, rest) := by
  have hzero : ∀ d ds, (toString n).toList ≠ '0' :: d :: ds := fun d ds hds => by
    rcases Nat.eq_zero_or_pos n with rfl | hpos
    · cases hds
    · exact head?_toString_ne hpos (congrArg List.head? hds)
  have hdigits := someDigits_append ended (toString_ne_nil n)
    (fun _ => isDigit_of_mem_toString) h.notDigit
  rw [wholeDigits, bind_of_ok hdigits]
  generalize (toString n).toList = ds at hzero
  split
  · exact absurd rfl (hzero _ _)
  · rfl

theorem fractionDigits_none (ended : JsonFault) (h : Ends rest) :
    fractionDigits ended rest = .ok (none, rest) := by
  cases rest with
  | nil => rfl
  | cons c cs => rcases h c rfl with rfl | rfl | rfl <;> rfl

theorem exponentDigits_none (ended : JsonFault) (h : Ends rest) :
    exponentDigits ended rest = .ok (none, rest) := by
  cases rest with
  | nil => rfl
  | cons c cs => rcases h c rfl with rfl | rfl | rfl <;> rfl

theorem unsignedNumber_toString (ended : JsonFault) (negative : Bool) (n : Nat) (h : Ends rest) :
    unsignedNumber ended negative ((toString n).toList ++ rest) =
      .ok (⟨negative, (toString n).toList, [], 0, true⟩, rest) := by
  rw [unsignedNumber, bind_of_ok (wholeDigits_toString ended n h),
    bind_of_ok (fractionDigits_none ended h), bind_of_ok (exponentDigits_none ended h)]
  rfl

theorem writtenNumber_of_ne (ended : JsonFault) : ∀ {cs : List Char}, cs.head? ≠ some '-' →
    writtenNumber ended cs = unsignedNumber ended false cs
  | [], _ => rfl
  | c :: cs, h => by
    have hget : (get : Reading (List Char)) (c :: cs) = .ok (c :: cs, c :: cs) := rfl
    have hc : c ≠ '-' := fun hc => h (congrArg some hc)
    rw [writtenNumber, bind_of_ok hget]
    refine congrFun ?_ (c :: cs)
    split
    · next hminus => exact absurd (List.cons.inj hminus).1 hc
    · rfl

theorem writtenNumber_nat (ended : JsonFault) (n : Nat) (h : Ends rest) :
    writtenNumber ended ((toString n).toList ++ rest) =
      .ok (⟨false, (toString n).toList, [], 0, true⟩, rest) := by
  rw [← unsignedNumber_toString ended false n h]
  obtain ⟨c, cs, hds, hc⟩ := toString_head n
  rw [hds]
  refine writtenNumber_of_ne ended fun hminus => ?_
  obtain rfl := Option.some.inj hminus
  cases hc

theorem writtenNumber_neg (ended : JsonFault) (n : Nat) (h : Ends rest) :
    writtenNumber ended ('-' :: ((toString n).toList ++ rest)) =
      .ok (⟨true, (toString n).toList, [], 0, true⟩, rest) :=
  unsignedNumber_toString ended true n h

/-- **A written integer is read back**, if it is one of those that are read. -/
theorem readNumber_int {n : Int} (hlow : -9223372036854775808 ≤ n)
    (hhigh : n < 18446744073709551616) (h : Ends rest) :
    readNumber ((toString n).toList ++ rest) = .ok (.int n, rest) := by
  cases n with
  | ofNat n =>
    have hint : WrittenNumber.int? ⟨false, (toString n).toList, [], 0, true⟩ = some (n : Int) := by
      have hn : n < 18446744073709551616 := Int.ofNat_lt.1 hhigh
      simp only [WrittenNumber.int?, natOfDigits_toString]
      simp [hn]
    show readNumber ((toString n).toList ++ rest) = _
    rw [readNumber, bind_of_ok (writtenNumber_nat _ n h), WrittenNumber.value?, hint]
    rfl
  | negSucc n =>
    have hint : WrittenNumber.int? ⟨true, (toString (n + 1)).toList, [], 0, true⟩ =
        some (Int.negSucc n) := by
      have hn : n + 1 ≤ 9223372036854775808 := by omega
      simp only [WrittenNumber.int?, natOfDigits_toString]
      simp [hn, Int.negSucc_eq]
    have htext : (toString (Int.negSucc n)).toList = '-' :: (toString (n + 1)).toList :=
      String.toList_append
    rw [htext, List.cons_append, readNumber, bind_of_ok (writtenNumber_neg _ (n + 1) h),
      WrittenNumber.value?, hint]
    rfl

end Json

end HybridStep
