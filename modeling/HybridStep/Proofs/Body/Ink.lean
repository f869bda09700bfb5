import Mathlib.Data.Nat.Notation
import HybridStep.Body.Expr.ToNode

/-! # How much is written

The spaces and parentheses of a text depend on where it stands, its other characters do not. So an
expression has as many of them in every place, and no fewer than an expression that it passes on as
its value. -/

namespace HybridStep

namespace TokenTree

/-- Neither a space nor a parenthesis. -/
def isInk (c : Char) : Bool := c ≠ ' ' && c ≠ '(' && c ≠ ')'

/-- The number of characters of a text other than spaces and parentheses. -/
def inkOfText (s : String) : ℕ := s.toList.countP isInk

/-- The number of characters that trees are written with, other than spaces and parentheses. -/
def ink (ts : List TokenTree) : ℕ := inkOfText (text ts)

theorem inkOfText_append (s t : String) : inkOfText (s ++ t) = inkOfText s + inkOfText t := by
  unfold inkOfText
  rw [String.toList_append, List.countP_append]

/-- The spaces between words do not count. -/
theorem inkOfText_intercalate (ws : List String) :
    inkOfText (" ".intercalate ws) = (ws.flatMap String.toList).countP isInk := by
  have hjoin : ∀ l : List (List Char),
      ([' '].intercalate l).countP isInk = l.flatten.countP isInk := by
    intro l
    induction l with
    | nil => rfl
    | cons w l ih =>
      cases l with
      | nil => simp [List.intercalate]
      | cons v l =>
        rw [List.flatten_cons, List.countP_append, ← ih]
        simp [List.intercalate, isInk]
  have hspace : " ".toList = [' '] := rfl
  unfold inkOfText
  rw [String.toList_intercalate, hspace, hjoin, List.flatMap_def]

theorem ink_eq_countP (ts : List TokenTree) :
    ink ts = ((words ts).flatMap String.toList).countP isInk :=
  inkOfText_intercalate (words ts)

theorem flatMap_glue (mark : Char) (ws : List String) :
    (glue mark ws).flatMap String.toList = mark.toString.toList ++ ws.flatMap String.toList := by
  cases ws with
  | nil => rfl
  | cons w ws =>
    rw [glue, List.flatMap_cons, List.flatMap_cons, String.toList_append, List.append_assoc]

theorem ink_nil : ink [] = 0 := rfl

/-- Every tree counts for itself. -/
theorem ink_cons (t : TokenTree) (ts : List TokenTree) :
    ink (t :: ts) = inkOfText t.word + ink ts := by
  rw [ink_eq_countP, ink_eq_countP]
  unfold inkOfText
  rw [← List.countP_append]
  match t with
  | .punct mark true => rw [words, flatMap_glue, word]
  | .punct mark false => rw [words, List.flatMap_cons]; exact nofun
  | .ident _ | .literal _ | .group _ _ => rw [words, List.flatMap_cons]; exact nofun

@[simp] theorem ink_append (ts us : List TokenTree) : ink (ts ++ us) = ink ts + ink us := by
  induction ts with
  | nil => rw [List.nil_append, ink_nil, Nat.zero_add]
  | cons t ts ih => rw [List.cons_append, ink_cons, ink_cons, ih, Nat.add_assoc]

/-- Parentheses around trees do not count. -/
theorem ink_group_paren (ts : List TokenTree) : ink [.group .paren ts] = ink ts := by
  have hopen : inkOfText "(" = 0 := rfl
  have hclose : inkOfText ")" = 0 := rfl
  rw [ink_cons, ink_nil, Nat.add_zero, word]
  unfold Delimiter.enclose
  rw [inkOfText_append, inkOfText_append, hopen, hclose, Nat.zero_add, Nat.add_zero]
  rfl

theorem ink_le_group_brace (ts : List TokenTree) : ink ts ≤ ink [.group .brace ts] := by
  have hwords : ink ts = inkOfText (" ".intercalate (words ts)) := rfl
  rw [ink_cons, ink_nil, Nat.add_zero, word]
  simp only [Delimiter.enclose]
  split
  · rename_i hempty
    rw [ink_eq_countP, List.isEmpty_iff.1 hempty]
    exact Nat.zero_le _
  · rw [inkOfText_append, inkOfText_append]
    omega

end TokenTree

open TokenTree (ink ink_append ink_cons ink_group_paren ink_le_group_brace)

theorem ink_grouped {trees : Surroundings → List TokenTree}
    (h : ∀ s, ink (trees s) = ink (trees .inside)) (needed : Bool) (s : Surroundings) :
    ink (grouped needed s trees) = ink (trees .inside) := by
  unfold grouped
  split
  · exact ink_group_paren _
  · exact h s

/-- The ink of an expression is that of its attributes and of its form. -/
theorem Expr.ink_mk_of {form : ExprForm} (h : ∀ s, ink (form.trees s) = ink (form.trees .inside))
    (attributes : List TokenTree) (s : Surroundings) :
    ink ((Expr.mk attributes form).trees s) = ink attributes + ink (form.trees .inside) := by
  have hwhole : ∀ s, ink (if attributes.isEmpty then form.trees s
      else attributes ++ grouped form.startsWithOperand s form.trees) =
      ink attributes + ink (form.trees .inside) := by
    intro s
    split
    · rename_i hempty
      rw [List.isEmpty_iff.1 hempty, h s, TokenTree.ink_nil, Nat.zero_add]
    · rw [ink_append, ink_grouped h]
  rw [Expr.trees, ink_grouped fun s => (hwhole s).trans (hwhole .inside).symm]
  exact hwhole .inside

mutual

/-- An expression is written with as much ink in every place. -/
theorem Expr.ink_trees : (e : Expr) → ∀ s, ink (e.trees s) = ink (e.trees .inside)
  | .mk attributes form, s => by
    have hform := form.ink_trees
    rw [Expr.ink_mk_of hform, Expr.ink_mk_of hform]

theorem ExprForm.ink_trees : (form : ExprForm) → ∀ s, ink (form.trees s) = ink (form.trees .inside)
  | .field base _, s | .method base _ _ _ _, s | .call base _ _, s | .index base _, s
  | .suffixed base _, s | .unary _ base, s | .borrow _ _ base, s | .cast base _ _, s
  | .binding _ base, s => by
    have hbase := base.ink_trees
    simp only [ExprForm.trees, ink_append, ink_cons, ink_grouped hbase]
  | .operation _ left right, s => by
    have hleft := left.ink_trees
    have hright := right.ink_trees
    simp only [ExprForm.trees, ink_append, ink_grouped hleft, ink_grouped hright]
  | .assign left right, s => by
    have hleft := left.ink_trees
    have hright := right.ink_trees
    simp only [ExprForm.trees, ink_append, ink_grouped hleft, hright (Surroundings.right _ _)]
  | .range start _ stop, s => by
    cases start with
    | none =>
      cases stop with
      | none => rfl
      | some stop =>
        have hstop := stop.ink_trees
        simp only [ExprForm.trees, ink_append, ink_grouped hstop]
    | some start =>
      have hstart := start.ink_trees
      cases stop with
      | none => simp only [ExprForm.trees, ink_append, ink_grouped hstart]
      | some stop =>
        have hstop := stop.ink_trees
        simp only [ExprForm.trees, ink_append, ink_grouped hstart, ink_grouped hstop]
  | .closure _ _ _ body, s => by
    have hbody := body.ink_trees
    simp only [ExprForm.trees, ink_append, hbody (Surroundings.right _ _)]
  | .leap _ value, s => by
    cases value with
    | none => rfl
    | some value =>
      have hvalue := value.ink_trees
      simp only [ExprForm.trees, ink_append, ink_cons, ink_grouped hvalue]
  | .ret value, s | .yield_ value, s => by
    cases value with
    | none => rfl
    | some value =>
      have hvalue := value.ink_trees
      simp only [ExprForm.trees, Expr.resultTrees, ink_cons, hvalue (Surroundings.right _ _ _)]
  | .literal .., _ | .path .., _ | .construction .., _ | .invocation .., _ | .enclosed .., _
  | .closed .., _ | .raw .., _ | .conditional .., _ | .block .., _ | .blockLike .., _ => rfl

end

/-- The ink of an expression on its own. -/
def Expr.ink (e : Expr) : ℕ := TokenTree.ink (e.trees .inside)

theorem Expr.ink_mk (attributes : List TokenTree) (form : ExprForm) :
    (Expr.mk attributes form).ink = TokenTree.ink attributes + TokenTree.ink (form.trees .inside) :=
  ink_mk_of form.ink_trees attributes .inside

/-- A return is written with more ink than its value. -/
theorem Expr.ink_lt_ret (attributes : List TokenTree) (value : Expr) :
    value.ink < (Expr.mk attributes (.ret (some value))).ink := by
  have hword : TokenTree.inkOfText (TokenTree.ident "return").word = 6 := rfl
  rw [ink_mk, ExprForm.trees, resultTrees, ink_cons, value.ink_trees, hword, ink]
  omega

namespace Expr

/-! ### Unsupported values -/

/-- An expression that is not supported itself has its own text. -/
theorem ink_le_of_unsupported {e : Expr} {text : String}
    (h : e.unsupported = .unsupported text) : TokenTree.inkOfText text ≤ e.ink :=
  Node.unsupported.inj h ▸ Nat.le_refl e.ink

mutual

/-- The text of an unsupported value is that of the expression, or of one that it passes on. -/
theorem ink_le_of_toNode {text : String} : (e : Expr) → e.toNode = .unsupported text →
    TokenTree.inkOfText text ≤ e.ink
  | .mk attributes form, h => by
    cases form with
    | literal trees value =>
      cases value with
      | none => exact ink_le_of_unsupported h
      | some value => cases h
    | path trees name =>
      cases name with
      | none => exact ink_le_of_unsupported h
      | some name => cases h
    | field base member =>
      rw [toNode] at h
      split at h
      · cases h
      · exact ink_le_of_unsupported h
    | unary op operand => cases h
    | operation op left right =>
      cases op with
      | augment op => exact ink_le_of_unsupported h
      | _ => cases h
    | enclosed inner =>
      have hinner := ink_le_of_toNode inner h
      rw [ink_mk, ExprForm.trees, ink_group_paren]
      unfold Expr.ink at hinner
      omega
    | cast inner type openPath =>
      have hinner := ink_le_of_toNode inner h
      rw [ink_mk, ExprForm.trees, ink_append, ink_grouped inner.ink_trees]
      unfold Expr.ink at hinner
      omega
    | borrow mark isRaw inner =>
      cases isRaw with
      | true => exact ink_le_of_unsupported h
      | false =>
        have hinner := ink_le_of_toNode inner h
        rw [ink_mk, ExprForm.trees, ink_append, ink_grouped inner.ink_trees]
        unfold Expr.ink at hinner
        omega
    | conditional test body orelse =>
      rw [toNode] at h
      split at h
      · cases h
      · exact ink_le_of_unsupported h
    | block label inner body =>
      cases label with
      | some label => exact ink_le_of_unsupported h
      | none =>
        rw [toNode] at h
        cases hbody : valueNode body with
        | none =>
          rw [hbody] at h
          exact ink_le_of_unsupported h
        | some n =>
          rw [hbody] at h
          have hvalue := ink_le_of_valueNode body (hbody.trans (congrArg some h))
          have hbrace := ink_le_group_brace (inner ++ Stmt.listTrees body)
          rw [ink_append] at hbrace
          rw [ink_mk, ExprForm.trees, ink_append]
          omega
    | method receiver name generics args trailing =>
      rw [toNode] at h
      split at h
      · split at h
        · cases h
        · exact ink_le_of_unsupported h
      · exact ink_le_of_unsupported h
    | _ => exact ink_le_of_unsupported h

theorem ink_le_of_valueNode {text : String} : (body : List Stmt) →
    valueNode body = some (.unsupported text) →
      TokenTree.inkOfText text ≤ TokenTree.ink (Stmt.listTrees body)
  | [.expr e false], h => by
    rw [valueNode] at h
    split at h
    · cases h
    · have he := ink_le_of_toNode e (Option.some.inj h)
      have hstmt : Stmt.listTrees [.expr e false] = e.trees .ofStatement ++ [] ++ [] := rfl
      rw [hstmt, List.append_nil, List.append_nil, e.ink_trees]
      exact he
  | [], h => nomatch h
  | [.expr _ true], h => nomatch h
  | [.bind ..], h => nomatch h
  | [.skipped _], h => nomatch h
  | .expr _ true :: _ :: _, h => nomatch h
  | .expr _ false :: _ :: _, h => nomatch h
  | .bind .. :: _ :: _, h => nomatch h
  | .skipped _ :: _ :: _, h => nomatch h

end

/-- A value is never unsupported syntax with the text of a return of it. -/
theorem toNode_ne_unsupported_ret (attributes : List TokenTree) (value : Expr) :
    value.toNode ≠ (Expr.mk attributes (.ret (some value))).unsupported := by
  intro h
  have hle := ink_le_of_toNode value h
  have hlt := ink_lt_ret attributes value
  exact absurd hle (Nat.not_le.2 hlt)

end Expr

end HybridStep
