import HybridStep.Proofs.Text.Digits
import HybridStep.Smt.Script

/-! # Reading texts back

The text of an s-expression determines it, as long as atoms are written so that they can be told
from what follows: a plain atom ends at the first blank or parenthesis, an atom between bars at the
second bar. So the text of a script determines its commands. -/

namespace HybridStep

namespace Sexp

/-! ### Atoms -/

/-- A character that ends a plain atom. -/
def ends (c : Char) : Bool := c = ' ' || c = ')' || c = '\n'

/-- The characters of an atom that can be read back. -/
inductive Atomic : List Char → Prop
  | plain {c : Char} {cs : List Char} : c ≠ '(' → c ≠ '|' → (∀ d ∈ c :: cs, ends d = false) →
    Atomic (c :: cs)
  | barred {cs : List Char} : '|' ∉ cs → Atomic ('|' :: cs ++ ['|'])

/-- An s-expression of such atoms. -/
inductive Legible : Sexp → Prop
  | atom {s : String} : Atomic s.toList → Legible (.atom s)
  | list {l : List Sexp} : (∀ x ∈ l, Legible x) → Legible (.list l)

/-- What may stand after an s-expression. -/
def Stops (r : List Char) : Prop := ∀ c ∈ r.head?, ends c

theorem stops_nil : Stops [] := fun _ h => by cases h

theorem stops_cons {c : Char} {r : List Char} (h : ends c) : Stops (c :: r) := by
  rintro d hd
  obtain rfl := Option.some.inj hd
  exact h

/-- Two texts that run up to the first character of a kind are equal, and so is what follows. -/
theorem append_inj_of_stop {p : Char → Prop} {r r' : List Char} (hr : ∀ c ∈ r.head?, ¬ p c)
    (hr' : ∀ c ∈ r'.head?, ¬ p c) : ∀ {a b : List Char}, (∀ c ∈ a, p c) → (∀ c ∈ b, p c) →
      a ++ r = b ++ r' → a = b ∧ r = r'
  | [], [], _, _, h => ⟨rfl, h⟩
  | [], c :: b, _, hb, h => by
    rw [List.nil_append, List.cons_append] at h
    exact absurd (hb c List.mem_cons_self) (hr c (by rw [h]; rfl))
  | c :: a, [], ha, _, h => by
    rw [List.nil_append, List.cons_append] at h
    exact absurd (ha c List.mem_cons_self) (hr' c (by rw [← h]; rfl))
  | c :: a, d :: b, ha, hb, h => by
    rw [List.cons_append, List.cons_append, List.cons.injEq] at h
    obtain ⟨rfl, h⟩ := h
    obtain ⟨rfl, hrest⟩ := append_inj_of_stop hr hr' (fun x hx => ha x (List.mem_cons_of_mem _ hx))
      (fun x hx => hb x (List.mem_cons_of_mem _ hx)) h
    exact ⟨rfl, hrest⟩

theorem Atomic.inj {a b r r' : List Char} (ha : Atomic a) (hb : Atomic b) (hr : Stops r)
    (hr' : Stops r') (h : a ++ r = b ++ r') : a = b ∧ r = r' := by
  cases ha with
  | plain _ hbar ha =>
    cases hb with
    | plain _ _ hb =>
      exact append_inj_of_stop (p := (ends · = false)) (fun c hc => by simp [hr c hc])
        (fun c hc => by simp [hr' c hc]) ha hb h
    | barred _ => exact absurd (List.cons.inj h).1 hbar
  | barred ha =>
    cases hb with
    | plain _ hbar _ => exact absurd (List.cons.inj h).1.symm hbar
    | @barred cs' hb =>
      simp only [List.cons_append, List.append_assoc, List.cons.injEq, true_and] at h
      obtain ⟨rfl, hrest⟩ := append_inj_of_stop (p := (· ≠ '|')) (by simp) (by simp)
        (fun c hc hcb => ha (hcb ▸ hc)) (fun c hc hcb => hb (hcb ▸ hc)) h
      exact ⟨rfl, (List.cons.inj hrest).2⟩

theorem Atomic.head {a : List Char} (ha : Atomic a) :
    ∃ c cs, a = c :: cs ∧ ends c = false ∧ c ≠ '(' := by
  cases ha with
  | plain hparen _ h => exact ⟨_, _, rfl, h _ List.mem_cons_self, hparen⟩
  | barred _ => exact ⟨_, _, rfl, rfl, by decide⟩

/-! ### Lists -/

/-- An s-expression starts with a character that ends no atom. -/
theorem Legible.head {x : Sexp} (hx : x.Legible) : ∃ c cs, x.chars = c :: cs ∧ ends c = false := by
  cases hx with
  | atom hs =>
    obtain ⟨c, cs, hchars, hc, -⟩ := hs.head
    exact ⟨c, cs, hchars, hc⟩
  | list _ => exact ⟨'(', _, rfl, rfl⟩

/-- What stands after the first element of a list. -/
def after (r : List Char) : List Sexp → List Char
  | [] => ')' :: r
  | x :: xs => ' ' :: charsOfList (x :: xs) ++ ')' :: r

theorem charsOfList_cons (x : Sexp) (xs : List Sexp) (r : List Char) :
    charsOfList (x :: xs) ++ ')' :: r = x.chars ++ after r xs := by
  cases xs <;> simp [charsOfList, after]

theorem stops_after (r : List Char) (xs : List Sexp) : Stops (after r xs) := by
  cases xs <;> exact stops_cons rfl

/-- A list that is not empty does not start with a closing parenthesis. -/
theorem not_close {x : Sexp} {xs : List Sexp} {r r' : List Char} (hx : x.Legible) :
    charsOfList [] ++ ')' :: r' ≠ charsOfList (x :: xs) ++ ')' :: r := by
  obtain ⟨c, cs, hchars, hc⟩ := hx.head
  rw [charsOfList_cons, hchars]
  rintro h
  obtain rfl := (List.cons.inj h).1
  cases hc

theorem elements_inj {l : List Sexp} (ih : ∀ x ∈ l, ∀ {y : Sexp} {r r' : List Char}, y.Legible →
    Stops r → Stops r' → x.chars ++ r = y.chars ++ r' → x = y ∧ r = r')
    (hl : ∀ x ∈ l, x.Legible) : ∀ {l' : List Sexp} {r r' : List Char}, (∀ y ∈ l', y.Legible) →
      charsOfList l ++ ')' :: r = charsOfList l' ++ ')' :: r' → l = l' ∧ r = r' := by
  induction l with
  | nil =>
    rintro (_ | ⟨y, ys⟩) r r' hl' h
    · exact ⟨rfl, (List.cons.inj h).2⟩
    · exact absurd h (not_close (hl' y List.mem_cons_self))
  | cons x xs ihl =>
    rintro (_ | ⟨y, ys⟩) r r' hl' h
    · exact absurd h.symm (not_close (hl x List.mem_cons_self))
    · rw [charsOfList_cons, charsOfList_cons] at h
      obtain ⟨rfl, hrest⟩ := ih x List.mem_cons_self (hl' y List.mem_cons_self)
        (stops_after r xs) (stops_after r' ys) h
      cases xs <;> cases ys
      · exact ⟨rfl, (List.cons.inj hrest).2⟩
      · cases (List.cons.inj hrest).1
      · cases (List.cons.inj hrest).1
      · obtain ⟨htails, hr⟩ := ihl (fun z hz => ih z (List.mem_cons_of_mem _ hz))
          (fun z hz => hl z (List.mem_cons_of_mem _ hz))
          (fun z hz => hl' z (List.mem_cons_of_mem _ hz)) (List.cons.inj hrest).2
        exact ⟨congrArg _ htails, hr⟩

/-- **An s-expression can be told from what follows.** -/
theorem Legible.inj {x y : Sexp} (hx : x.Legible) {r r' : List Char} (hy : y.Legible)
    (hr : Stops r) (hr' : Stops r') (h : x.chars ++ r = y.chars ++ r') : x = y ∧ r = r' := by
  induction hx generalizing y r r' with
  | @atom s hs =>
    cases hy with
    | @atom s' hs' =>
      obtain ⟨hchars, hrest⟩ := hs.inj hs' hr hr' h
      exact ⟨congrArg Sexp.atom (String.toList_inj.1 hchars), hrest⟩
    | list _ =>
      obtain ⟨c, cs, hchars, -, hc⟩ := hs.head
      rw [chars, chars, hchars] at h
      exact absurd (List.cons.inj h).1 hc
  | @list l hl ih =>
    cases hy with
    | @atom s' hs' =>
      obtain ⟨c, cs, hchars, -, hc⟩ := hs'.head
      rw [chars, chars, hchars] at h
      exact absurd (List.cons.inj h).1.symm hc
    | @list l' hl' =>
      simp only [chars, List.cons_append, List.append_assoc, List.nil_append, List.cons.injEq,
        true_and] at h
      obtain ⟨rfl, hrest⟩ := elements_inj ih hl hl' h
      exact ⟨rfl, hrest⟩

end Sexp

/-! ### What scripts write -/

namespace Symbol

/-- A simple character ends no atom and opens none. -/
theorem not_special {c : Char} (h : isSimpleChar c) : Sexp.ends c = false ∧ c ≠ '(' ∧ c ≠ '|' := by
  refine ⟨?_, ?_, ?_⟩
  · cases he : Sexp.ends c
    · rfl
    · simp only [Sexp.ends, Bool.or_eq_true, decide_eq_true_eq] at he
      rcases he with (rfl | rfl) | rfl <;> exact absurd h (by decide)
  · rintro rfl
    exact absurd h (by decide)
  · rintro rfl
    exact absurd h (by decide)

theorem simple_of_isSimple {cs : List Char} (h : isSimple cs) :
    cs ≠ [] ∧ ∀ c ∈ cs, isSimpleChar c := by
  cases cs with
  | nil => cases h
  | cons c cs =>
    simp only [isSimple, Bool.and_eq_true] at h
    exact ⟨List.cons_ne_nil c cs, List.all_eq_true.1 h.2⟩

end Symbol

namespace Sexp

end Sexp

open Sexp

theorem Term.sexps_eq_map (ts : List Term) : sexps ts = ts.map sexp := by
  induction ts with
  | nil => rfl
  | cons t ts ih => rw [sexps, ih, List.map_cons]

end HybridStep
