import HybridStep.Proofs.Smt.Conflicts

/-! # Tokens

How SMT-LIB cuts a text into tokens. White space and comments stand between tokens, and where a
token starts, the longest one is read with which the text goes on. A word of simple characters is a
symbol unless it is reserved, and whatever stands between two bars is a symbol as long as it holds
no backslash and no control character; it is the same symbol that the word alone would be.

* `longest?_eq_some_iff`: the token that is read is the longest one;
* `scan_quote`: what is read where a name is written, whatever a script writes behind it;
* `quote_read`: the main statement, what a lexer makes of a written name. -/

namespace HybridStep

/-- A token. Constants are kept as they are spelled, symbols without bars around them. -/
inductive Token where
  | opening
  | closing
  | numeral (spelling : String)
  | decimal (spelling : String)
  | hexadecimal (spelling : String)
  | binary (spelling : String)
  | string (spelling : String)
  | keyword (name : String)
  | reserved (word : String)
  | symbol (name : String)
  deriving DecidableEq

namespace Lexicon

open HybridStep.Ascii (isDigit hexValue?)
open HybridStep.Symbol (isSimple isSimpleChar quoteChars reservedWords unbar)

/-! ### Characters -/

/-- The characters that are white space. -/
def isSpace (c : Char) : Bool := c = ' ' || c = '\t' || c = '\n' || c = '\r'

/-- The characters that end a comment. -/
def endsLine (c : Char) : Bool := c = '\n' || c = '\r'

/-- White space, and the characters that are printed: those from 32 on, except for 127. -/
def isText (c : Char) : Bool := isSpace c || (32 ≤ c.toNat && c.toNat != 127)

/-- The characters that may stand between the bars of a symbol. -/
def isBarred (c : Char) : Bool := isText c && c != '|' && c != '\\'

/-! ### What a text spells as a whole -/

/-- A zero, or digits that do not start with a zero. -/
def isNumeral : List Char → Bool
  | [] => false
  | c :: cs => (c :: cs).all isDigit && (c != '0' || cs.isEmpty)

/-- A numeral, a point, and at least one digit. -/
def isDecimal (cs : List Char) : Bool :=
  isNumeral (cs.takeWhile isDigit) &&
    match cs.dropWhile isDigit with
    | '.' :: d :: ds => (d :: ds).all isDigit
    | _ => false

/-- What stands behind the first quotation mark of a string. A mark inside is written twice. -/
def closesString : List Char → Bool
  | [] => false
  | ['"'] => true
  | '"' :: '"' :: cs => closesString cs
  | c :: cs => c != '"' && isText c && closesString cs

/-- The token of a word of simple characters: a reserved word, or the symbol. -/
def word (cs : List Char) : Token :=
  if String.ofList cs ∈ reservedWords then .reserved (String.ofList cs)
  else .symbol (String.ofList cs)

/-- The token of a text that starts with a simple character. -/
def plain? (cs : List Char) : Option Token :=
  if isSimple cs then some (word cs)
  else if isNumeral cs then some (.numeral (String.ofList cs))
  else if isDecimal cs then some (.decimal (String.ofList cs))
  else none

/-- The symbol of a text behind its first bar. -/
def barred? (cs : List Char) : Option Token :=
  if cs.getLast? = some '|' ∧ cs.dropLast.all isBarred then
    some (.symbol (String.ofList cs.dropLast))
  else none

/-- The token of a text that starts with another character. -/
def marked? (cs : List Char) : Option Token :=
  match cs with
  | ['('] => some .opening
  | [')'] => some .closing
  | '|' :: rest => barred? rest
  | '"' :: rest => if closesString rest then some (.string (String.ofList cs)) else none
  | ':' :: rest => if isSimple rest then some (.keyword (String.ofList rest)) else none
  | '#' :: 'x' :: d :: ds =>
    if (d :: ds).all fun d => (hexValue? d).isSome then some (.hexadecimal (String.ofList cs))
    else none
  | '#' :: 'b' :: d :: ds =>
    if (d :: ds).all fun d => d = '0' || d = '1' then some (.binary (String.ofList cs)) else none
  | _ => none

/-- The token that a text spells as a whole, if it spells one. -/
def spelled? : List Char → Option Token
  | [] => none
  | c :: cs => if isSimpleChar c then plain? (c :: cs) else marked? (c :: cs)

/-! ### Cutting a text -/

/-- The longest token at the start of a text with at most so many characters, and the number of its
characters after the first. -/
def longestUpTo (cs : List Char) : Nat → Option (Token × Nat)
  | 0 => none
  | k + 1 =>
    match spelled? (cs.take (k + 1)) with
    | some t => some (t, k)
    | none => longestUpTo cs k

/-- The longest token at the start of a text, and the number of its characters after the first. -/
def longest? (cs : List Char) : Option (Token × Nat) := longestUpTo cs cs.length

/-- The tokens of a text behind so many characters that have been read already. -/
def scan : Nat → List Char → Option (List Token)
  | _, [] => some []
  | k + 1, _ :: cs => scan k cs
  | 0, c :: cs =>
    if isSpace c then scan 0 cs
    else if c = ';' then scan (cs.takeWhile (!endsLine ·)).length cs
    else
      match longest? (c :: cs) with
      | some (t, k) => (scan k cs).map (t :: ·)
      | none => none

/-- The tokens of a text, if it consists of tokens. -/
def tokens? (text : String) : Option (List Token) := scan 0 text.toList

example : tokens? "(assert (>= |a b| 12.50)) ; let\n#xaF \"a\"\"b\" :on" =
    some [.opening, .reserved "assert", .opening, .symbol ">=", .symbol "a b", .decimal "12.50",
      .closing, .closing, .hexadecimal "#xaF", .string "\"a\"\"b\"", .keyword "on"] := by decide

/-! ### The longest token -/

theorem longestUpTo_eq_none_iff {cs : List Char} : ∀ {n : Nat},
    longestUpTo cs n = none ↔ ∀ l < n, spelled? (cs.take (l + 1)) = none
  | 0 => by simp [longestUpTo]
  | n + 1 => by
    rw [longestUpTo, Nat.forall_lt_succ_right, ← longestUpTo_eq_none_iff]
    split
    · next ht => simp [ht]
    · next ht => simp [ht]

theorem longestUpTo_eq_some_iff {cs : List Char} {t : Token} {k : Nat} : ∀ {n : Nat},
    longestUpTo cs n = some (t, k) ↔ k < n ∧ spelled? (cs.take (k + 1)) = some t ∧
      ∀ l, k < l → l < n → spelled? (cs.take (l + 1)) = none
  | 0 => by simp [longestUpTo]
  | n + 1 => by
    rw [longestUpTo]
    split
    · next t' ht =>
      simp only [Option.some.injEq, Prod.mk.injEq]
      constructor
      · rintro ⟨rfl, rfl⟩
        exact ⟨Nat.lt_succ_self _, ht, fun l hl hl' => by omega⟩
      · rintro ⟨hk, hspelled, hlong⟩
        have hn : k = n := by
          by_contra hne
          have hnone := hlong n (by omega) (Nat.lt_succ_self n)
          rw [ht] at hnone
          cases hnone
        subst hn
        exact ⟨Option.some.inj (ht.symm.trans hspelled), rfl⟩
    · next hnone =>
      rw [longestUpTo_eq_some_iff]
      constructor
      · rintro ⟨hk, hspelled, hlong⟩
        refine ⟨by omega, hspelled, fun l hl hl' => ?_⟩
        rcases Nat.lt_succ_iff_lt_or_eq.1 hl' with hlt | rfl
        · exact hlong l hl hlt
        · exact hnone
      · rintro ⟨hk, hspelled, hlong⟩
        refine ⟨?_, hspelled, fun l hl hl' => hlong l hl (by omega)⟩
        rcases Nat.lt_succ_iff_lt_or_eq.1 hk with hlt | rfl
        · exact hlt
        · rw [hnone] at hspelled
          cases hspelled

/-- **The token that is read is the longest one** that the text starts with. -/
theorem longest?_eq_some_iff {cs : List Char} {t : Token} {k : Nat} :
    longest? cs = some (t, k) ↔ k < cs.length ∧ spelled? (cs.take (k + 1)) = some t ∧
      ∀ l, k < l → l < cs.length → spelled? (cs.take (l + 1)) = none :=
  longestUpTo_eq_some_iff

theorem longest?_eq_none {cs : List Char} (h : ∀ p q, p ++ q = cs → spelled? p = none) :
    longest? cs = none :=
  longestUpTo_eq_none_iff.2 fun _ _ => h _ _ (List.take_append_drop _ _)

theorem longest?_append {c : Char} {cs rest : List Char} {t : Token}
    (ht : spelled? (c :: cs) = some t)
    (hlong : ∀ p q, p ++ q = rest → p ≠ [] → spelled? (c :: cs ++ p) = none) :
    longest? (c :: cs ++ rest) = some (t, cs.length) := by
  have hlength : (c :: cs ++ rest).length = cs.length + 1 + rest.length := by
    rw [List.length_append, List.length_cons]
  refine longest?_eq_some_iff.2 ⟨by omega, ?_, fun l hl hl' => ?_⟩
  · rw [← List.length_cons (a := c), List.take_left]
    exact ht
  · have htake : (c :: cs ++ rest).take (l + 1) = c :: cs ++ rest.take (l - cs.length) := by
      rw [List.take_append, List.take_of_length_le (Nat.succ_le_succ hl.le), List.length_cons,
        Nat.add_sub_add_right]
    rw [htake]
    refine hlong _ _ (List.take_append_drop _ _) ?_
    rw [ne_eq, List.take_eq_nil_iff, ← List.length_eq_zero_iff]
    omega

/-! ### One token -/

/-- Tokens start with anything but white space and the mark of a comment. -/
def Starts (c : Char) : Prop := isSpace c = false ∧ c ≠ ';'

theorem scan_skip (rest : List Char) : ∀ cs : List Char, scan cs.length (cs ++ rest) = scan 0 rest
  | [] => rfl
  | _ :: cs => scan_skip rest cs

theorem scan_append {c : Char} {cs rest : List Char} {t : Token} (hc : Starts c)
    (ht : spelled? (c :: cs) = some t)
    (hlong : ∀ p q, p ++ q = rest → p ≠ [] → spelled? (c :: cs ++ p) = none) :
    scan 0 (c :: cs ++ rest) = (scan 0 rest).map (t :: ·) := by
  have hlongest := longest?_append ht hlong
  rw [List.cons_append] at hlongest ⊢
  simp only [scan, hc.1, hc.2, hlongest, Bool.false_eq_true, if_false]
  rw [scan_skip]

theorem scan_eq_none {c : Char} {cs : List Char} (hc : Starts c)
    (h : ∀ p q, p ++ q = c :: cs → spelled? p = none) : scan 0 (c :: cs) = none := by
  simp only [scan, hc.1, hc.2, longest?_eq_none h, Bool.false_eq_true, if_false]

/-! ### Words -/

theorem starts_of_simple {c : Char} (hc : isSimpleChar c) : Starts c := by
  refine ⟨?_, ?_⟩
  · cases hs : isSpace c
    · rfl
    · simp only [isSpace, Bool.or_eq_true, decide_eq_true_eq] at hs
      rcases hs with ((rfl | rfl) | rfl) | rfl <;> exact absurd hc (by decide)
  · rintro rfl
    exact absurd hc (by decide)

/-- A text that starts with a simple character other than a digit spells a word, or nothing. -/
theorem spelled?_of_head {c : Char} {cs : List Char} (hc : isSimpleChar c)
    (hd : isDigit c = false) :
    spelled? (c :: cs) = if isSimple (c :: cs) then some (word (c :: cs)) else none := by
  have hnumeral : isNumeral (c :: cs) = false := by simp [isNumeral, hd]
  have hdecimal : isDecimal (c :: cs) = false := by simp [isDecimal, isNumeral, hd]
  simp [spelled?, plain?, hc, hnumeral, hdecimal]

theorem scan_word {cs rest : List Char} (h : isSimple cs) (hrest : Sexp.Stops rest) :
    scan 0 (cs ++ rest) = (scan 0 rest).map (word cs :: ·) := by
  cases cs with
  | nil => cases h
  | cons c cs =>
    have hsimple := (Symbol.simple_of_isSimple h).2 c List.mem_cons_self
    have hdigit : isDigit c = false := by
      simp only [isSimple, Bool.and_eq_true, Bool.not_eq_true'] at h
      exact h.1
    refine scan_append (starts_of_simple hsimple) ?_ fun p q hpq hp => ?_
    · rw [spelled?_of_head hsimple hdigit, if_pos h]
    · -- more characters would bring one in that ends the word
      obtain ⟨d, ds, rfl⟩ := List.exists_cons_of_ne_nil hp
      rw [List.cons_append, spelled?_of_head hsimple hdigit, if_neg]
      intro hlong
      have hd := (Symbol.simple_of_isSimple hlong).2 d (by simp)
      have hends := hrest d (by simp [← hpq])
      rw [(Symbol.not_special hd).1] at hends
      cases hends

/-! ### Symbols between bars -/

theorem exists_of_barred? {cs : List Char} {t : Token} (h : barred? cs = some t) :
    ∃ name, cs = name ++ ['|'] ∧ name.all isBarred := by
  rw [barred?] at h
  split_ifs at h with hcs
  obtain ⟨name, rfl⟩ := List.getLast?_eq_some_iff.1 hcs.1
  rw [List.dropLast_concat] at hcs
  exact ⟨name, rfl, hcs.2⟩

theorem barred?_concat (name : List Char) : barred? (name ++ ['|']) =
    if name.all isBarred then some (.symbol (String.ofList name)) else none := by
  simp [barred?]

theorem bar_not_mem_of_isBarred {name : List Char} (h : name.all isBarred) : '|' ∉ name :=
  fun hmem => absurd (List.all_eq_true.1 h _ hmem) (by decide)

/-- A symbol between bars ends at the second bar. -/
theorem eq_of_barred? {name p q rest : List Char} {t : Token} (hname : '|' ∉ name)
    (h : barred? p = some t) (hpq : p ++ q = name ++ '|' :: rest) :
    p = name ++ ['|'] ∧ name.all isBarred := by
  obtain ⟨name', rfl, hall⟩ := exists_of_barred? h
  rw [List.append_assoc, List.singleton_append] at hpq
  obtain ⟨rfl, -⟩ := Sexp.append_inj_of_stop (p := (· ≠ '|')) (by simp) (by simp)
    (fun c hc hcb => bar_not_mem_of_isBarred hall (hcb ▸ hc)) (fun c hc hcb => hname (hcb ▸ hc)) hpq
  exact ⟨rfl, hall⟩

theorem scan_barred {name : List Char} (hname : '|' ∉ name) (rest : List Char) :
    scan 0 ('|' :: (name ++ '|' :: rest)) =
      if name.all isBarred then
        (scan 0 rest).map (.symbol (String.ofList name) :: ·)
      else
        none := by
  have hstart : Starts '|' := ⟨rfl, by decide⟩
  split_ifs with hall
  · have hsplit : '|' :: (name ++ '|' :: rest) = '|' :: (name ++ ['|']) ++ rest := by simp
    rw [hsplit]
    refine scan_append hstart ((barred?_concat name).trans (if_pos hall)) fun p q hpq hp => ?_
    by_contra hsome
    obtain ⟨t, ht⟩ := Option.ne_none_iff_exists'.1 hsome
    have hpq' : name ++ ['|'] ++ p ++ q = name ++ '|' :: rest := by simp [hpq]
    exact hp (List.append_right_eq_self.1 (eq_of_barred? hname ht hpq').1)
  · refine scan_eq_none hstart fun p q hpq => ?_
    cases p with
    | nil => rfl
    | cons c p =>
      obtain ⟨rfl, htail⟩ := List.cons.inj hpq
      by_contra hsome
      obtain ⟨t, ht⟩ := Option.ne_none_iff_exists'.1 hsome
      exact hall (eq_of_barred? hname ht htail).2

/-! ### Names -/

/-- The characters of words may stand between bars. -/
theorem isBarred_of_simple {c : Char} (h : isSimpleChar c) : isBarred c := by
  by_contra hc
  have hascii : c.toNat < 128 := by
    by_contra hlarge
    have hbar : c ≠ '|' := by
      rintro rfl
      exact hlarge (by decide)
    have hslash : c ≠ '\\' := by
      rintro rfl
      exact hlarge (by decide)
    refine hc ?_
    simp only [isBarred, isText, bne_iff_ne, Bool.and_eq_true, Bool.or_eq_true, decide_eq_true_eq]
    exact ⟨⟨.inr ⟨by omega, by omega⟩, hbar⟩, hslash⟩
  -- what is beyond ASCII may stand between bars in any case, so that a finite check is left
  have hall : ∀ n < 128, isSimpleChar (Char.ofNat n) → isBarred (Char.ofNat n) := by decide +kernel
  have hn := hall c.toNat hascii
  rw [Char.ofNat_toNat] at hn
  exact hc (hn h)

theorem isSimple_of_reserved : ∀ w ∈ reservedWords, isSimple w.toList := by decide

/-- The token that is read where a name is written. -/
def named? (name : String) : Option Token :=
  if name ∈ reservedWords then some (.reserved name)
  else if (unbar name).toList.all isBarred then some (.symbol (unbar name))
  else none

theorem bar_not_mem_unbar (name : String) : '|' ∉ (unbar name).toList := by
  rw [unbar, String.toList_ofList]
  intro h
  obtain ⟨c, -, hc⟩ := List.mem_map.1 h
  split_ifs at hc with hbar
  · cases hc
  · exact hbar hc

/-- **What is read where a name is written**, whatever a script writes behind it. -/
theorem scan_quote (name : String) {rest : List Char} (hrest : Sexp.Stops rest) :
    scan 0 ((Symbol.quote name).toList ++ rest) =
      (named? name).bind fun t => (scan 0 rest).map (t :: ·) := by
  rw [Symbol.quote, String.toList_ofList, quoteChars]
  by_cases hsimple : isSimple name.toList
  · have hchars := (Symbol.simple_of_isSimple hsimple).2
    have hall : name.toList.all isBarred :=
      List.all_eq_true.2 fun c hc => isBarred_of_simple (hchars c hc)
    rw [if_pos hsimple, scan_word hsimple hrest, word, named?,
      Symbol.unbar_of_no_bar (bar_not_mem_of_isBarred hall), if_pos hall, String.ofList_toList]
    split_ifs <;> rfl
  · have hfree : name ∉ reservedWords := fun h => hsimple (isSimple_of_reserved name h)
    have hbars : '|' :: name.toList.map (fun c => if c = '|' then '_' else c) ++ ['|'] ++ rest =
        '|' :: ((unbar name).toList ++ '|' :: rest) := by simp [unbar]
    rw [if_neg hsimple, named?, if_neg hfree, hbars, scan_barred (bar_not_mem_unbar name),
      String.ofList_toList]
    split_ifs <;> rfl

theorem tokens?_quote (name : String) :
    tokens? (Symbol.quote name) = (named? name).map fun t => [t] := by
  have h := scan_quote name Sexp.stops_nil
  rw [List.append_nil] at h
  rw [tokens?, h]
  cases named? name <;> rfl

theorem named?_of_plain {name : String} (hbar : '|' ∉ name.toList) (hslash : '\\' ∉ name.toList) :
    named? name =
      if name ∈ reservedWords then some (.reserved name)
      else if name.toList.all isText then some (.symbol name)
      else none := by
  have hall : name.toList.all isBarred = name.toList.all isText := by
    rw [Bool.eq_iff_iff, List.all_eq_true, List.all_eq_true]
    refine forall₂_congr fun c hc => ?_
    have hcbar : c ≠ '|' := fun h => hbar (h ▸ hc)
    have hcslash : c ≠ '\\' := fun h => hslash (h ▸ hc)
    simp [isBarred, hcbar, hcslash]
  rw [named?, Symbol.unbar_of_no_bar hbar, hall]

theorem eq_of_named? {name x : String} (hbar : '|' ∉ name.toList)
    (h : named? name = some (.symbol x)) : name = x := by
  rw [named?, Symbol.unbar_of_no_bar hbar] at h
  split_ifs at h
  · cases h
  · exact Token.symbol.inj (Option.some.inj h)

/-- Names without bars are written differently. -/
theorem quote_inj {a b : String} (ha : '|' ∉ a.toList) (hb : '|' ∉ b.toList)
    (h : Symbol.quote a = Symbol.quote b) : a = b := by
  rw [← Symbol.unbar_of_no_bar ha, ← Symbol.unbar_of_no_bar hb, ← Symbol.read_quote,
    ← Symbol.read_quote, h]

/-- **What a lexer makes of a written name.** A name without bars and backslashes is read as one
symbol, which is the name itself, unless it is a reserved word, which is read as such, or holds a
control character, which makes it no token. Different names are written differently, and no symbol
is what two names are read as. -/
theorem quote_read (name : String) (hbar : '|' ∉ name.toList) (hslash : '\\' ∉ name.toList) :
    tokens? (Symbol.quote name) =
      (if name ∈ reservedWords then some [.reserved name]
      else if name.toList.all isText then some [.symbol name]
      else none) ∧
    ∀ other : String, '|' ∉ other.toList → other ≠ name →
      Symbol.quote other ≠ Symbol.quote name ∧
      ∀ x, ¬ (tokens? (Symbol.quote other) = some [.symbol x] ∧
        tokens? (Symbol.quote name) = some [.symbol x]) := by
  refine ⟨?_, fun other hother hne => ⟨fun h => hne (quote_inj hother hbar h), ?_⟩⟩
  · rw [tokens?_quote, named?_of_plain hbar hslash]
    split_ifs <;> rfl
  · rintro x ⟨hx, hx'⟩
    rw [tokens?_quote] at hx hx'
    have hsymbol {n : String} (h : (named? n).map (fun t => [t]) = some [.symbol x]) :
        named? n = some (.symbol x) := by
      obtain ⟨t, ht, hone⟩ := Option.map_eq_some_iff.1 h
      rw [ht, (List.cons.inj hone).1]
    exact hne ((eq_of_named? hother (hsymbol hx)).trans (eq_of_named? hbar (hsymbol hx')).symm)

/-- Marks that start a comment or a string elsewhere are part of a symbol between bars. -/
theorem marked_name_read :
    '|' ∉ "a; \"→\"".toList ∧ '\\' ∉ "a; \"→\"".toList ∧
    tokens? (Symbol.quote "a; \"→\"") = some [.symbol "a; \"→\""] ∧
    '|' ∉ "a".toList ∧ "a" ≠ "a; \"→\"" ∧ Symbol.quote "a" ≠ Symbol.quote "a; \"→\"" := by
  have hbar : '|' ∉ "a; \"→\"".toList := by decide
  have hslash : '\\' ∉ "a; \"→\"".toList := by decide
  have hfree : "a; \"→\"" ∉ reservedWords := by decide
  have htext : "a; \"→\"".toList.all isText := by decide
  have hother : '|' ∉ "a".toList := by decide
  have hne : "a" ≠ "a; \"→\"" := by decide
  obtain ⟨hread, hdiffer⟩ := quote_read "a; \"→\"" hbar hslash
  rw [if_neg hfree, if_pos htext] at hread
  exact ⟨hbar, hslash, hread, hother, hne, (hdiffer "a" hother hne).1⟩

/-- A reserved word is written as it stands, and so it is not read as the symbol that it would be
between bars. -/
theorem let_read_as_reserved :
    '|' ∉ "let".toList ∧ '\\' ∉ "let".toList ∧
    tokens? (Symbol.quote "let") = some [.reserved "let"] ∧
    tokens? (Symbol.quote "let") ≠ some [.symbol "let"] ∧
    tokens? "|let|" = some [.symbol "let"] := by decide

end Lexicon

end HybridStep
