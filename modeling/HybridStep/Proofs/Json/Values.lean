import HybridStep.Proofs.Json.Scalars
import Mathlib.Data.List.Forall2

/-! # Values that are read back

A reader reads something off the text of a value, wherever the text goes on in a way in which it can
go on after a value. Lists are read back if their elements are, and objects if their members are,
one after the other into what has been read before them. So a value without floating-point numbers
is read back as it was, if it is held as values are held: with integers of at most 64 bits and
members in the order of their keys. -/

namespace HybridStep

namespace Json

variable {α ρ : Type}

/-! ### Texts of lists and objects -/

/-- The text begins as that of a value can: with no blank, and not with the end of a list. -/
def Begins (cs : List Char) : Prop := ∃ c rest, cs = c :: rest ∧ isSpace c = false ∧ c ≠ ']'

/-- The characters of a value. -/
def chars (v : Json) : List Char := v.compact.toList

/-- The characters of a member. -/
def memberChars (m : String × Json) : List Char := (stringText m.1).toList ++ ':' :: m.2.chars

/-- Texts that follow another one, each after a comma. -/
def further (l : List (List Char)) : List Char := l.flatMap (',' :: ·)

theorem further_cons (a : List Char) (l : List (List Char)) (rest : List Char) :
    further (a :: l) ++ rest = ',' :: (a ++ (further l ++ rest)) := by
  rw [further, List.flatMap_cons, ← further, List.append_assoc, List.cons_append]

theorem length_le_further (l : List (List Char)) : l.length ≤ (further l).length :=
  length_le_flatMap (List.cons_ne_nil ',') l

theorem intercalate_cons (a : List Char) (l : List (List Char)) :
    [','].intercalate (a :: l) = a ++ further l := by
  induction l generalizing a with
  | nil => simp [further]
  | cons b l ih =>
    have hcons := further_cons b l []
    rw [List.append_nil, List.append_nil] at hcons
    rw [List.intercalate_cons_cons, ih, hcons, List.append_assoc, List.singleton_append]

theorem compactElements_eq_map (vs : List Json) : compactElements vs = vs.map compact := by
  induction vs with
  | nil => rfl
  | cons v vs ih => rw [compactElements, ih, List.map_cons]

theorem compactMembers_eq_map (ms : List (String × Json)) :
    compactMembers ms = ms.map fun m => stringText m.1 ++ ":" ++ m.2.compact := by
  induction ms with
  | nil => rfl
  | cons m ms ih => rw [compactMembers, ih, List.map_cons]

theorem chars_string (s : String) :
    (string s).chars = '"' :: (s.toList.flatMap escapeChar ++ ['"']) := toList_stringText s

theorem chars_array (vs : List Json) :
    (array vs).chars = '[' :: ([','].intercalate (vs.map chars) ++ [']']) := by
  simp only [chars, compact, String.toList_append, String.toList_intercalate,
    compactElements_eq_map, List.map_map]
  rfl

theorem chars_object (ms : List (String × Json)) :
    (object ms).chars = '\x7b' :: ([','].intercalate (ms.map memberChars) ++ ['\x7d']) := by
  have hmember : String.toList ∘ (fun m : String × Json => stringText m.1 ++ ":" ++ m.2.compact) =
      memberChars := by
    funext m
    simp only [Function.comp_apply, String.toList_append, memberChars, chars, List.append_assoc]
    rfl
  simp only [chars, compact, String.toList_append, String.toList_intercalate,
    compactMembers_eq_map, List.map_map, hmember]
  rfl

/-! ### Lists -/

/-- A reader reads something off the text of a value, wherever a value can end there. -/
structure Reads (x : Reading α) (v : Json) (a : α) : Prop where
  begins : Begins v.chars
  ok : ∀ ⦃rest⦄, Ends rest → x (v.chars ++ rest) = .ok (a, rest)

variable {item : Reading α} {fuel : Nat} {cs rest : List Char}

theorem elementsUpTo_close (item : Reading α) (fuel : Nat) (first : Bool) (rest : List Char) :
    elementsUpTo item (fuel + 1) first (']' :: rest) = .ok ([], rest) := by
  rw [elementsUpTo, bind_of_ok (peekSome_cons (by decide) rest)]
  rfl

theorem elementsUpTo_first (h : Begins cs) : elementsUpTo item (fuel + 1) true cs =
    (do
      let a ← item
      let others ← elementsUpTo item fuel false
      return a :: others : Reading (List α)) cs := by
  obtain ⟨c, rest, rfl, hspace, hc⟩ := h
  rw [elementsUpTo, bind_of_ok (peekSome_cons hspace rest), if_neg hc]
  rfl

theorem elementsUpTo_next (h : Begins cs) :
    elementsUpTo item (fuel + 1) false (',' :: cs) = elementsUpTo item (fuel + 1) true cs := by
  rw [elementsUpTo_first h, elementsUpTo, bind_of_ok (peekSome_cons (by decide) cs)]
  obtain ⟨c, rest, rfl, hspace, hc⟩ := h
  have hmark : ¬ ',' = ']' := by decide
  simp only [if_neg hmark, Bool.not_false, ne_eq, not_true_eq_false, if_true, if_false]
  have hdrop : drop1 (',' :: c :: rest) = .ok ((), c :: rest) := rfl
  rw [bind_of_ok hdrop, bind_of_ok (peekSome_cons hspace rest), if_neg hc]

theorem Begins.append (h : Begins cs) (rest : List Char) : Begins (cs ++ rest) := by
  obtain ⟨c, cs, rfl, hc⟩ := h
  exact ⟨c, cs ++ rest, rfl, hc⟩

/-- After a value the others of a list or an object follow, or its end. -/
theorem ends_further {c : Char} (hc : c = ']' ∨ c = '\x7d') (l : List (List Char))
    (rest : List Char) : Ends (further l ++ c :: rest) := by
  cases l with
  | nil => exact ends_cons (.inr hc)
  | cons a l => exact ends_cons (.inl rfl)

theorem elementsUpTo_reads (rest : List Char) : ∀ {vs : List Json} {as : List α} {fuel : Nat},
    List.Forall₂ (Reads item) vs as → vs.length < fuel →
      elementsUpTo item fuel false (further (vs.map chars) ++ ']' :: rest) =
        .ok (as, rest)
  | [], [], fuel + 1, .nil, _ => elementsUpTo_close item fuel false rest
  | v :: vs, a :: as, fuel + 1, .cons hv hvs, h => by
    have hothers := elementsUpTo_reads rest hvs (Nat.lt_of_succ_lt_succ h)
    have hitem := hv.ok (ends_further (.inl rfl) (vs.map chars) rest)
    rw [List.map_cons, further_cons, elementsUpTo_next (hv.begins.append _),
      elementsUpTo_first (hv.begins.append _), bind_of_ok hitem, bind_of_ok hothers]
    rfl

/-- **The elements of a list are read back** if each of them is. -/
theorem elements_reads {vs : List Json} {as : List α} (h : List.Forall₂ (Reads item) vs as)
    (rest : List Char) : elements item ([','].intercalate (vs.map chars) ++ ']' :: rest) =
      .ok (as, rest) := by
  cases h with
  | nil => exact elementsUpTo_close item _ true rest
  | @cons v a vs as hv hvs =>
    have hitem := hv.ok (ends_further (.inl rfl) (vs.map chars) rest)
    have hlength := length_le_further (vs.map chars)
    rw [List.map_cons, intercalate_cons, List.append_assoc, elements,
      elementsUpTo_first (hv.begins.append _), bind_of_ok hitem,
      bind_of_ok (elementsUpTo_reads rest hvs _)]
    · rfl
    · rw [List.length_map] at hlength
      simp only [List.length_append, List.length_cons]
      omega

/-! ### Objects -/

variable {add : String → ρ → Reading ρ} {r r' : ρ} {ms : List (String × Json)}

/-- What is read off the members of an object, one after the other. -/
inductive Adds (add : String → ρ → Reading ρ) : ρ → List (String × Json) → ρ → Prop
  | nil {r : ρ} : Adds add r [] r
  | cons {r r' r'' : ρ} {k : String} {v : Json} {ms : List (String × Json)} :
    (∀ ⦃rest⦄, Ends rest → add k r (':' :: (v.chars ++ rest)) = .ok (r', rest)) →
      Adds add r' ms r'' → Adds add r ((k, v) :: ms) r''

theorem membersUpTo_close (fuel : Nat) (first : Bool) (rest : List Char) :
    membersUpTo stringBody add (fuel + 1) first r ('\x7d' :: rest) = .ok (r, rest) := by
  rw [membersUpTo, bind_of_ok (peekSome_cons (by decide) rest)]
  rfl

theorem memberChars_append (k : String) (v : Json) (rest : List Char) :
    memberChars (k, v) ++ rest =
      '"' :: (k.toList.flatMap escapeChar ++ '"' :: ':' :: (v.chars ++ rest)) := by
  rw [memberChars, toList_stringText]
  simp only [List.append_assoc, List.cons_append, List.nil_append]

theorem membersUpTo_first (cs : List Char) :
    membersUpTo stringBody add (fuel + 1) true r ('"' :: cs) =
      (do
        let k ← stringBody
        let r' ← add k r
        membersUpTo stringBody add fuel false r' : Reading ρ) cs := by
  rw [membersUpTo, bind_of_ok (peekSome_cons (by decide) cs)]
  rfl

theorem membersUpTo_next (cs : List Char) :
    membersUpTo stringBody add (fuel + 1) false r (',' :: '"' :: cs) =
      membersUpTo stringBody add (fuel + 1) true r ('"' :: cs) := by
  rw [membersUpTo_first, membersUpTo, bind_of_ok (peekSome_cons (by decide) _)]
  rfl

theorem membersUpTo_member {k : String} {v : Json}
    (h : add k r (':' :: (v.chars ++ rest)) = .ok (r', rest)) :
    membersUpTo stringBody add (fuel + 1) true r (memberChars (k, v) ++ rest) =
      membersUpTo stringBody add fuel false r' rest := by
  rw [memberChars_append, membersUpTo_first, bind_of_ok (stringBody_text k _), bind_of_ok h]

theorem membersUpTo_adds (rest : List Char) : ∀ {ms : List (String × Json)} {r r' : ρ} {fuel : Nat},
    Adds add r ms r' → ms.length < fuel →
      membersUpTo stringBody add fuel false r (further (ms.map memberChars) ++ '\x7d' :: rest) =
        .ok (r', rest)
  | [], _, _, fuel + 1, .nil, _ => membersUpTo_close fuel false rest
  | (k, v) :: ms, _, _, fuel + 1, .cons hm hms, h => by
    have hothers := membersUpTo_adds rest hms (Nat.lt_of_succ_lt_succ h)
    have hmember := hm (ends_further (.inr rfl) (ms.map memberChars) rest)
    rw [List.map_cons, further_cons, memberChars_append, membersUpTo_next, ← memberChars_append,
      membersUpTo_member hmember, hothers]

/-- **The members of an object are read back** into what has been read before. -/
theorem members_adds (h : Adds add r ms r') (rest : List Char) :
    members stringBody add r ([','].intercalate (ms.map memberChars) ++ '\x7d' :: rest) =
      .ok (r', rest) := by
  cases h with
  | nil => exact membersUpTo_close _ true rest
  | @cons _ r' _ k v ms hm hms =>
    have hmember := hm (ends_further (.inr rfl) (ms.map memberChars) rest)
    have hlength := length_le_further (ms.map memberChars)
    rw [List.map_cons, intercalate_cons, List.append_assoc, members, membersUpTo_member hmember,
      membersUpTo_adds rest hms]
    rw [List.length_map] at hlength
    simp only [List.length_append, List.length_cons]
    omega

/-! ### Values of any form -/

mutual

/-- The number of lists and objects that stand in one another in a value. -/
def nesting : Json → Nat
  | null => 0
  | bool _ => 0
  | number _ => 0
  | string _ => 0
  | array elements => nestingOfElements elements + 1
  | object members => nestingOfMembers members + 1

/-- The greatest nesting of an element. -/
def nestingOfElements : List Json → Nat
  | [] => 0
  | v :: vs => max v.nesting (nestingOfElements vs)

/-- The greatest nesting of the value of a member. -/
def nestingOfMembers : List (String × Json) → Nat
  | [] => 0
  | (_, v) :: ms => max v.nesting (nestingOfMembers ms)

end

theorem nesting_le_of_mem_elements {v : Json} : ∀ {vs : List Json}, v ∈ vs →
    v.nesting ≤ nestingOfElements vs
  | w :: vs, h => by
    rw [nestingOfElements]
    rcases List.mem_cons.1 h with rfl | h
    · exact Nat.le_max_left _ _
    · exact (nesting_le_of_mem_elements h).trans (Nat.le_max_right _ _)

theorem nesting_le_of_mem_members {m : String × Json} : ∀ {ms : List (String × Json)}, m ∈ ms →
    m.2.nesting ≤ nestingOfMembers ms
  | (k, v) :: ms, h => by
    rw [nestingOfMembers]
    rcases List.mem_cons.1 h with rfl | h
    · exact Nat.le_max_left _ _
    · exact (nesting_le_of_mem_members h).trans (Nat.le_max_right _ _)

/-- Inside a list there is a level less. -/
theorem exists_depth_of_array {vs : List Json} {depth : Nat} (h : (array vs).nesting < depth) :
    ∃ d, depth = d + 2 ∧ ∀ v ∈ vs, v.nesting < d + 1 := by
  rw [nesting] at h
  refine ⟨depth - 2, by omega, fun v hv => ?_⟩
  have hle := nesting_le_of_mem_elements hv
  omega

/-- Inside an object there is a level less. -/
theorem exists_depth_of_object {ms : List (String × Json)} {depth : Nat}
    (h : (object ms).nesting < depth) :
    ∃ d, depth = d + 2 ∧ ∀ m ∈ ms, m.2.nesting < d + 1 := by
  rw [nesting] at h
  refine ⟨depth - 2, by omega, fun m hm => ?_⟩
  have hle := nesting_le_of_mem_members hm
  omega

/-- A value without floating-point numbers, held as values are held: its integers have 64 bits, with
or without a sign, and members stand in the ascending order of their keys. -/
inductive Exact : Json → Prop
  | null : Exact null
  | bool (b : Bool) : Exact (bool b)
  | int {n : Int} : -9223372036854775808 ≤ n → n < 18446744073709551616 → Exact (number (.int n))
  | string (s : String) : Exact (string s)
  | array {vs : List Json} : (∀ v ∈ vs, Exact v) → Exact (array vs)
  | object {ms : List (String × Json)} : (ms.Pairwise fun m m' => m.1 < m'.1) →
    (∀ m ∈ ms, Exact m.2) → Exact (object ms)

theorem expectMark_cons {c : Char} (h : isSpace c = false) (cs : List Char) :
    expectMark c (c :: cs) = .ok ((), cs) := by
  rw [expectMark, bind_of_ok (peekSome_cons h cs), if_pos rfl]
  rfl

theorem insertMember_of_lt (k : String) (v : Json) : ∀ {ms : List (String × Json)},
    (∀ m ∈ ms, m.1 < k) → insertMember k v ms = ms ++ [(k, v)]
  | [], _ => rfl
  | (k', v') :: ms, h => by
    obtain ⟨hk, hms⟩ := List.forall_mem_cons.1 h
    have hne : k ≠ k' := fun heq => String.lt_irrefl k (heq ▸ hk)
    rw [insertMember, if_neg hne, if_neg (String.lt_asymm hk), insertMember_of_lt k v hms,
      List.cons_append]

/-- Members in the order of their keys are added at the end. -/
theorem adds_insertMember {item : Reading Json} : ∀ (before : List (String × Json))
    {ms : List (String × Json)},
    ((before ++ ms).Pairwise fun m m' => m.1 < m'.1) → (∀ m ∈ ms, Reads item m.2 m.2) →
      Adds (fun k ms => do
        expectMark ':'
        return insertMember k (← item) ms) before ms (before ++ ms)
  | before, [], _, _ => by
    rw [List.append_nil]
    exact .nil
  | before, (k, v) :: ms, hkeys, h => by
    obtain ⟨hv, hms⟩ := List.forall_mem_cons.1 h
    have hbefore : ∀ m ∈ before, m.1 < k := fun m hm =>
      (List.pairwise_append.1 hkeys).2.2 m hm (k, v) List.mem_cons_self
    rw [List.append_cons] at hkeys ⊢
    refine .cons (fun rest hrest => ?_) (adds_insertMember _ hkeys hms)
    rw [bind_of_ok (expectMark_cons (by decide) _), bind_of_ok (hv.ok hrest),
      insertMember_of_lt k v hbefore]
    rfl

theorem readValue_scalar {d : Nat} {v : Json} {c : Char} {cs : List Char} (h : v.chars = c :: cs)
    (hspace : isSpace c = false) (hlist : c ≠ '[') (hobject : c ≠ '\x7b') (rest : List Char) :
    readValue (d + 1) (v.chars ++ rest) = scalar c (v.chars ++ rest) := by
  rw [h, List.cons_append, readValue, bind_of_ok (peekSome_cons hspace _), if_neg hlist,
    if_neg hobject]

theorem startsNumber_of_toString (n : Int) :
    ∃ c cs, (toString n).toList = c :: cs ∧ startsNumber c := by
  cases n with
  | ofNat n =>
    obtain ⟨c, cs, hds, hc⟩ := toString_head n
    exact ⟨c, cs, hds, by simp [startsNumber, hc]⟩
  | negSucc n => exact ⟨'-', (toString (n + 1)).toList, String.toList_append, rfl⟩

theorem ne_of_startsNumber {c d : Char} (h : startsNumber c) (hd : startsNumber d = false) :
    c ≠ d := by
  rintro rfl
  rw [h] at hd
  cases hd

theorem scalar_number {c : Char} (h : startsNumber c) : scalar c = .number <$> readNumber := by
  unfold scalar
  rw [if_neg (ne_of_startsNumber h (by decide)), if_neg (ne_of_startsNumber h (by decide)),
    if_neg (ne_of_startsNumber h (by decide)), if_neg (ne_of_startsNumber h (by decide)), if_pos h]

/-- **A value is read back** as it was, at every depth that its nesting leaves room for. -/
theorem reads_of_exact {v : Json} (h : v.Exact) : ∀ {d : Nat}, v.nesting < d →
    Reads (readValue d) v v := by
  induction h with
  | null =>
    rintro (_ | d) hd
    · cases hd
    · exact ⟨⟨'n', _, rfl, by decide, by decide⟩, fun rest _ => rfl⟩
  | bool b =>
    rintro (_ | d) hd
    · cases hd
    · cases b
      · exact ⟨⟨'f', _, rfl, by decide, by decide⟩, fun rest _ => rfl⟩
      · exact ⟨⟨'t', _, rfl, by decide, by decide⟩, fun rest _ => rfl⟩
  | @int n hlow hhigh =>
    rintro (_ | d) hd
    · cases hd
    · obtain ⟨c, cs, htext, hc⟩ := startsNumber_of_toString n
      have hchars : (number (.int n)).chars = c :: cs := htext
      have hne {d : Char} (hd : startsNumber d = false) : c ≠ d := ne_of_startsNumber hc hd
      have hspace : isSpace c = false := by
        simp [isSpace, hne (d := ' ') (by decide), hne (d := '\n') (by decide),
          hne (d := '\t') (by decide), hne (d := '\r') (by decide)]
      refine ⟨⟨c, cs, hchars, hspace, hne (by decide)⟩, fun rest hrest => ?_⟩
      rw [readValue_scalar hchars hspace (hne (by decide)) (hne (by decide)), scalar_number hc]
      exact map_of_ok (readNumber_int hlow hhigh hrest)
  | string s =>
    rintro (_ | d) hd
    · cases hd
    · refine ⟨⟨_, _, chars_string s, by decide, by decide⟩, fun rest _ => ?_⟩
      rw [readValue_scalar (chars_string s) (by decide) (by decide) (by decide), chars_string,
        List.cons_append, List.append_assoc]
      exact map_of_ok (stringBody_text s rest)
  | @array vs _ ih =>
    intro depth hdepth
    obtain ⟨d, rfl, hvs⟩ := exists_depth_of_array hdepth
    refine ⟨⟨_, _, chars_array vs, by decide, by decide⟩, fun rest _ => ?_⟩
    rw [chars_array, List.cons_append, List.append_assoc]
    exact map_of_ok (elements_reads (List.forall₂_same.2 fun v hv => ih v hv (hvs v hv)) rest)
  | @object ms hkeys _ ih =>
    intro depth hdepth
    obtain ⟨d, rfl, hms⟩ := exists_depth_of_object hdepth
    refine ⟨⟨_, _, chars_object ms, by decide, by decide⟩, fun rest _ => ?_⟩
    rw [chars_object, List.cons_append, List.append_assoc]
    exact map_of_ok
      (members_adds (adds_insertMember [] hkeys fun m hm => ih m hm (hms m hm)) rest)

end Json

end HybridStep
