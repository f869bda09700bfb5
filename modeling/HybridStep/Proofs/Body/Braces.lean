import HybridStep.Body.Function
import HybridStep.Proofs.Body.Ink
import HybridStep.Proofs.Body.Losses
import HybridStep.Proofs.Ordered.Bindings

/-! # Redundant braces

The body of a closure is read as a value, unless it is a block, and the end of a block as a
statement; an arm of an `if` counts as a value unless it is known to be a statement, and a block is
not. So braces around the body of a closure, or around the content of an arm, can change what is
read. -/

namespace HybridStep

namespace Expr

/-- An expression as it stands at the end of a block, where a macro call in braces is a
statement. -/
def asTail : Expr → Stmt
  | mk attributes (.invocation trees true) => .skipped (attributes ++ trees)
  | e => .expr e false

/-- An expression in braces. -/
def inBraces (e : Expr) : Expr := mk [] (.block none [] [e.asTail])

/-- Whether an expression is a block without a label. -/
def isOpenBlock : Expr → Bool
  | mk _ (.block none _ _) => true
  | _ => false

/-- Whether an expression is a macro call in braces. -/
def isBracedCall : Expr → Bool
  | mk _ (.invocation _ true) => true
  | _ => false

theorem exists_of_isOpenBlock {e : Expr} (h : e.isOpenBlock = true) :
    ∃ attributes inner stmts, e = mk attributes (.block none inner stmts) := by
  unfold isOpenBlock at h
  split at h
  · exact ⟨_, _, _, rfl⟩
  · cases h

theorem exists_of_isBracedCall {e : Expr} (h : e.isBracedCall = true) :
    ∃ attributes trees, e = mk attributes (.invocation trees true) := by
  unfold isBracedCall at h
  split at h
  · exact ⟨_, _, rfl⟩
  · cases h

theorem asTail_of_not_isBracedCall {e : Expr} (h : e.isBracedCall = false) :
    e.asTail = .expr e false := by
  unfold isBracedCall at h
  unfold asTail
  split
  · cases h
  · rfl

end Expr

namespace Stmt

/-! ### The end of a block -/

theorem toNodes_nil (tail : Bool) : toNodes tail [] = [] := by rw [toNodes]

/-- Only the last statement is read as a tail. -/
theorem toNodes_concat (s : Stmt) : ∀ before : List Stmt,
    toNodes true (before ++ [s]) = toNodes false before ++ toNodes true [s]
  | [] => by rw [List.nil_append, toNodes_nil, List.nil_append]
  | t :: before => by
    have ih := toNodes_concat s before
    have hmore : (before ++ [s]).isEmpty = false := by cases before <;> rfl
    match t with
    | .bind attributes pattern typed value alternative =>
      rw [List.cons_append, toNodes.eq_def, toNodes.eq_def false]
      dsimp only
      rw [ih, List.append_assoc]
    | .skipped trees => rw [List.cons_append, toNodes, toNodes, ih]
    | .expr (.mk attributes form) terminated =>
      rw [List.cons_append, toNodes.eq_def, toNodes.eq_def false]
      dsimp only
      simp only [hmore, Bool.and_false, Bool.false_and]
      rw [ih, List.append_assoc]

/-- A block at the end of a block is read as its content. -/
theorem toNodes_block (tail : Bool) (attributes inner : List TokenTree) (body : List Stmt) :
    toNodes tail [.expr (.mk attributes (.block none inner body)) false] = toNodes tail body := by
  rw [toNodes.eq_def]
  dsimp only
  rw [toNodes_nil, List.append_nil, List.isEmpty_nil, Bool.and_true, Bool.not_false, Bool.and_true]

/-- An `if` at the end of a block is returned if it is a value, and a branch otherwise. -/
theorem toNodes_conditional (attributes : List TokenTree) (test : Expr) (body : List Stmt)
    (orelse : Option Expr) :
    toNodes true [.expr (.mk attributes (.conditional test body orelse)) false] =
      if (Expr.mk attributes (.conditional test body orelse)).isStatement
      then [.branch test.toNode (toNodes true body) (elseNodes true orelse)]
      else [.ret (some (Expr.mk attributes (.conditional test body orelse)).toNode)] := by
  rw [toNodes.eq_def]
  dsimp only
  rw [toNodes_nil, List.append_nil]
  cases (Expr.mk attributes (.conditional test body orelse)).isStatement <;> rfl

/-- A value that is no block is returned. -/
theorem toNodes_value {e : Expr} (hvalue : e.isStatement = false) (hblock : e.isOpenBlock = false) :
    toNodes true [.expr e false] = [.ret (some e.toNode)] := by
  obtain ⟨attributes, form⟩ := e
  rw [toNodes.eq_def]
  dsimp only
  rw [toNodes_nil, List.append_nil]
  cases form with
  | assign | ret => cases hvalue
  | operation op left right =>
    cases op with
    | augment op => cases hvalue
    | _ => rfl
  | conditional test body orelse =>
    rw [hvalue]
    rfl
  | block label inner body =>
    cases label with
    | none => cases hblock
    | some label => rfl
  | _ => rfl

/-- A statement is not read as the return of its value. -/
theorem toNodes_statement {e : Expr} (h : e.isStatement = true) :
    toNodes true [.expr e false] ≠ [.ret (some e.toNode)] := by
  obtain ⟨attributes, form⟩ := e
  rw [toNodes.eq_def]
  dsimp only
  rw [toNodes_nil, List.append_nil]
  cases form with
  | assign target value => exact nofun
  | ret value =>
    intro heq
    have hvalue : Expr.elseNode value = some (Expr.mk attributes (.ret value)).toNode :=
      Node.ret.inj (List.head_eq_of_cons_eq heq)
    cases value with
    | none => cases hvalue
    | some value =>
      exact Expr.toNode_ne_unsupported_ret attributes value (Option.some.inj hvalue)
  | operation op left right =>
    cases op with
    | augment op => exact nofun
    | _ => cases h
  | conditional test body orelse =>
    rw [h]
    exact nofun
  | _ => cases h

end Stmt

/-! ### The body of a closure -/

namespace UpdateFunction

/-- How a closure with its body `e` in braces compares with the closure without them. The statements
are the same where `e` is read as a value at the end of a block, the locals where `e` is itself a
block or has none with a primitive type. -/
structure InBraces (e : Expr) (plain braced : UpdateFunction) : Prop where
  kind : braced.kind = plain.kind
  receiver : braced.receiver = plain.receiver
  params : braced.params = plain.params
  body : braced.body = plain.body ↔ e.isStatement = false ∧ e.isBracedCall = false
  declared : braced.declared = plain.declared ↔ e.isOpenBlock = true ∨ Stmt.declaredIn e = []

/-- The closure with the given names, statements and locals. -/
def closureOf (names : List String) (body : List Node) (locals : List (String × TermSort)) :
    UpdateFunction :=
  ⟨.closure, names.head?, names.tail, body, .ofList locals⟩

/-- A block as body is read like the block of a function. -/
theorem ofClosure_block (params : List Pattern) (attributes inner : List TokenTree)
    (stmts : List Stmt) :
    ofClosure params (.mk attributes (.block none inner stmts)) = (paramNames params).map
      fun names => closureOf names (Stmt.toNodes true stmts) (Stmt.declared stmts) :=
  rfl

/-- Any other body is returned. -/
theorem ofClosure_value (params : List Pattern) {e : Expr} (h : e.isOpenBlock = false) :
    ofClosure params e =
      (paramNames params).map fun names => closureOf names [.ret (some e.toNode)] [] := by
  obtain ⟨attributes, form⟩ := e
  cases form with
  | block label inner body =>
    cases label with
    | none => cases h
    | some label => rfl
  | _ => rfl

variable (names : List String)

theorem inBraces_block (attributes inner : List TokenTree) (stmts : List Stmt) :
    let e := Expr.mk attributes (.block none inner stmts)
    InBraces e (closureOf names (Stmt.toNodes true stmts) (Stmt.declared stmts))
      (closureOf names (Stmt.toNodes true [e.asTail]) (Stmt.declared [e.asTail])) := by
  intro e
  have htail : e.asTail = .expr e false := rfl
  have hdeclared : Stmt.declared [.expr e false] = Stmt.declared stmts ++ [] := rfl
  rw [htail, Stmt.toNodes_block, hdeclared, List.append_nil]
  exact ⟨rfl, rfl, rfl, iff_of_true rfl ⟨rfl, rfl⟩, iff_of_true rfl (.inl rfl)⟩

/-- A macro call in braces is skipped, so that nothing is left of the body. -/
theorem inBraces_call (attributes trees : List TokenTree) :
    let e := Expr.mk attributes (.invocation trees true)
    InBraces e (closureOf names [.ret (some e.toNode)] [])
      (closureOf names (Stmt.toNodes true [e.asTail]) (Stmt.declared [e.asTail])) := by
  intro e
  have htail : e.asTail = .skipped (attributes ++ trees) := rfl
  have hdeclared : Stmt.declared [.skipped (attributes ++ trees)] = [] := rfl
  rw [htail, Stmt.toNodes, Stmt.toNodes_nil, hdeclared]
  refine ⟨rfl, rfl, rfl, iff_of_false ?_ ?_, iff_of_true rfl (.inr rfl)⟩
  · exact nofun
  · exact fun h => Bool.false_ne_true h.2.symm

theorem inBraces_value {e : Expr} (hblock : e.isOpenBlock = false)
    (hcall : e.isBracedCall = false) :
    InBraces e (closureOf names [.ret (some e.toNode)] [])
      (closureOf names (Stmt.toNodes true [e.asTail]) (Stmt.declared [e.asTail])) := by
  have hdeclared : Stmt.declared [.expr e false] = Stmt.declaredIn e ++ [] := rfl
  rw [Expr.asTail_of_not_isBracedCall hcall, hdeclared, List.append_nil]
  refine ⟨rfl, rfl, rfl, ?_, ?_⟩
  · cases hstatement : e.isStatement with
    | true =>
      refine iff_of_false (Stmt.toNodes_statement hstatement) ?_
      exact fun h => Bool.false_ne_true h.1.symm
    | false => exact iff_of_true (Stmt.toNodes_value hstatement hblock) ⟨rfl, hcall⟩
  · rw [hblock]
    have hempty : OrderedMap.ofList (Stmt.declaredIn e) = .empty ↔ Stmt.declaredIn e = [] :=
      OrderedMap.ofList_eq_empty_iff
    exact hempty.trans (or_iff_right Bool.false_ne_true).symm

/-- Braces around the body of a closure keep the error of its parameters, and its names. -/
theorem ofClosure_inBraces (params : List Pattern) (e : Expr) :
    (∃ error, ofClosure params e = .error error ∧ ofClosure params e.inBraces = .error error) ∨
      ∃ plain braced, ofClosure params e = .ok plain ∧ ofClosure params e.inBraces = .ok braced ∧
        InBraces e plain braced := by
  have hbraced : ofClosure params e.inBraces = (paramNames params).map fun names =>
      closureOf names (Stmt.toNodes true [e.asTail]) (Stmt.declared [e.asTail]) := rfl
  cases hopen : e.isOpenBlock with
  | true =>
    obtain ⟨attributes, inner, stmts, rfl⟩ := Expr.exists_of_isOpenBlock hopen
    rw [hbraced, ofClosure_block]
    cases paramNames params with
    | error error => exact .inl ⟨error, rfl, rfl⟩
    | ok names => exact .inr ⟨_, _, rfl, rfl, inBraces_block names attributes inner stmts⟩
  | false =>
    rw [hbraced, ofClosure_value params hopen]
    cases paramNames params with
    | error error => exact .inl ⟨error, rfl, rfl⟩
    | ok names =>
      refine .inr ⟨_, _, rfl, rfl, ?_⟩
      cases hcall : e.isBracedCall with
      | true =>
        obtain ⟨attributes, trees, rfl⟩ := Expr.exists_of_isBracedCall hcall
        exact inBraces_call names attributes trees
      | false => exact inBraces_value names hopen hcall

end UpdateFunction

/-! ### The arms of an `if` -/

namespace Expr

/-- An `if` with a hole for the content of one of its arms. -/
inductive ArmHole where
  | yes (attributes : List TokenTree) (test : Expr) (orelse : Option Expr)
  | no (attributes : List TokenTree) (test : Expr) (body : List Stmt)
      (outer inner : List TokenTree)
  | later (attributes : List TokenTree) (test : Expr) (body : List Stmt) (rest : ArmHole)

namespace ArmHole

/-- The `if` with the hole filled. -/
def fill : ArmHole → List Stmt → Expr
  | yes attributes test orelse, arm => mk attributes (.conditional test arm orelse)
  | no attributes test body outer inner, arm =>
    mk attributes (.conditional test body (some (mk outer (.block none inner arm))))
  | later attributes test body rest, arm =>
    mk attributes (.conditional test body (some (rest.fill arm)))

/-- Whether there is a last arm, and all arms but the one with the hole are single values. -/
def othersAreValues : ArmHole → Bool
  | yes _ _ orelse => isValueElse orelse
  | no _ _ body _ _ => isValueBlock body
  | later _ _ body rest => isValueBlock body && rest.othersAreValues

/-- An `if` is a value if all of its arms are. -/
theorem isStatement_fill (arm : List Stmt) : ∀ hole : ArmHole,
    (hole.fill arm).isStatement = !(isValueBlock arm && hole.othersAreValues)
  | yes _ _ orelse => rfl
  | no _ _ body _ _ => by
    rw [fill, isStatement, isValueElse, othersAreValues, Bool.and_comm]
  | later _ _ body rest => by
    have ih := isStatement_fill arm rest
    have helse : isValueElse (some (rest.fill arm)) = !(rest.fill arm).isStatement := by
      cases rest <;> exact (Bool.not_not _).symm
    rw [fill, isStatement, helse, ih, Bool.not_not, othersAreValues, Bool.and_left_comm]

end ArmHole

/-! ### Content in braces -/

/-- The content of a block in a pair of braces of its own. -/
def braced (body : List Stmt) : List Stmt := [.expr (mk [] (.block none [] body)) false]

/-- Content in braces always counts as a value. -/
theorem isValueBlock_braced (body : List Stmt) : isValueBlock (braced body) = true := rfl

theorem exists_valueNode {body : List Stmt} (h : isValueBlock body = true) :
    ∃ n, valueNode body = some n := by
  unfold isValueBlock at h
  split at h
  · rename_i e
    refine ⟨e.toNode, ?_⟩
    rw [valueNode, if_neg]
    intro hstatement
    rw [hstatement] at h
    cases h
  · cases h

/-- A value stays the same value in braces. -/
theorem valueNode_braced {body : List Stmt} (h : isValueBlock body = true) :
    valueNode (braced body) = valueNode body := by
  obtain ⟨n, hn⟩ := exists_valueNode h
  have hopen : (mk [] (.block none [] body)).isStatement = false := rfl
  rw [braced, valueNode, hopen, if_neg Bool.false_ne_true, toNode, hn]
  rfl

theorem toNodes_braced (tail : Bool) (body : List Stmt) :
    Stmt.toNodes tail (braced body) = Stmt.toNodes tail body :=
  Stmt.toNodes_block tail [] [] body

namespace ArmHole

variable {arm : List Stmt}

/-- An `if` with a value in every arm has the same value with braces in one of them. -/
theorem toNode_fill_braced (harm : isValueBlock arm = true) :
    ∀ {hole : ArmHole}, hole.othersAreValues = true →
      (hole.fill (braced arm)).toNode = (hole.fill arm).toNode
  | yes attributes test orelse, h => by
    obtain ⟨n, hn⟩ := exists_valueNode harm
    have helse : ∃ no, elseNode orelse = some no := by
      cases orelse with
      | none => cases h
      | some e => exact ⟨e.toNode, rfl⟩
    obtain ⟨no, hno⟩ := helse
    rw [fill, fill, toNode, toNode, valueNode_braced harm, hn, hno]
  | no attributes test body outer inner, h => by
    obtain ⟨n, hn⟩ := exists_valueNode harm
    have hbody : isValueBlock body = true := h
    obtain ⟨yes, hyes⟩ := exists_valueNode hbody
    rw [fill, fill, toNode, toNode, hyes, elseNode, elseNode, toNode, toNode, valueNode_braced harm,
      hn]
    rfl
  | later attributes test body rest, h => by
    obtain ⟨hbody, hrest⟩ := Bool.and_eq_true_iff.1 h
    have ih := toNode_fill_braced harm hrest
    obtain ⟨yes, hyes⟩ := exists_valueNode hbody
    rw [fill, fill, toNode, toNode, hyes, elseNode, elseNode, ih]

/-- Read as a branch, an `if` is the same with braces in one of its arms. -/
theorem elseNodes_fill_braced (tail : Bool) (arm : List Stmt) : ∀ hole : ArmHole,
    Stmt.elseNodes tail (some (hole.fill (braced arm))) =
      Stmt.elseNodes tail (some (hole.fill arm))
  | yes attributes test orelse => by
    rw [fill, fill, Stmt.elseNodes, Stmt.elseNodes, toNodes_braced]
  | no attributes test body outer inner => by
    rw [fill, fill, Stmt.elseNodes, Stmt.elseNodes, Stmt.elseNodes, Stmt.elseNodes, toNodes_braced]
  | later attributes test body rest => by
    have ih := elseNodes_fill_braced tail arm rest
    rw [fill, fill, Stmt.elseNodes, Stmt.elseNodes, ih]

theorem elseNodes_fill (tail : Bool) (hole : ArmHole) (arm : List Stmt) :
    ∃ test body orelse, Stmt.elseNodes tail (some (hole.fill arm)) =
      some [.branch test body orelse] := by
  cases hole <;> exact ⟨_, _, _, by rw [fill, Stmt.elseNodes]⟩

theorem toNodes_fill (hole : ArmHole) (arm : List Stmt) :
    Stmt.toNodes true [.expr (hole.fill arm) false] =
      if (hole.fill arm).isStatement then (Stmt.elseNodes true (some (hole.fill arm))).getD []
      else [.ret (some (hole.fill arm).toNode)] := by
  cases hole with
  | yes | later => rw [fill, Stmt.toNodes_conditional, Stmt.elseNodes, Option.getD_some]
  | no =>
    rw [fill, Stmt.toNodes_conditional, Stmt.elseNodes, Stmt.elseNodes, Stmt.elseNodes,
      Option.getD_some]

/-- Braces around the content of an arm make an `if` a value just where the other arms are values
and the content is not known as one. -/
theorem toNodes_fill_braced_iff (before : List Stmt) (hole : ArmHole) (arm : List Stmt) :
    Stmt.toNodes true (before ++ [.expr (hole.fill (braced arm)) false]) =
        Stmt.toNodes true (before ++ [.expr (hole.fill arm) false]) ↔
      isValueBlock arm = true ∨ hole.othersAreValues = false := by
  rw [Stmt.toNodes_concat, Stmt.toNodes_concat, List.append_cancel_left_eq, toNodes_fill,
    toNodes_fill, isStatement_fill, isStatement_fill, isValueBlock_braced, Bool.true_and]
  cases hothers : hole.othersAreValues with
  | false =>
    rw [Bool.and_false]
    refine iff_of_true ?_ (.inr rfl)
    exact congrArg (Option.getD · []) (elseNodes_fill_braced true arm hole)
  | true =>
    cases harm : isValueBlock arm with
    | true =>
      refine iff_of_true ?_ (.inl rfl)
      exact congrArg (fun n => [Node.ret (some n)]) (toNode_fill_braced harm hothers)
    | false =>
      obtain ⟨test, body, orelse, hbranch⟩ := elseNodes_fill true hole arm
      refine iff_of_false ?_ ?_
      · rw [hbranch]
        exact nofun
      · rintro (h | h) <;> cases h

end ArmHole

end Expr

/-! ### Redundant braces -/

/-- **What redundant braces change.** Braces around the body of a closure keep its error and its
names, and its statements just where the body is neither an assignment, a return or an `if` that is
no value, nor a macro call in braces; they keep the locals just where the body is a block or has no
locals with a primitive type. Braces around the content of an arm of an `if` at the end of a body
keep the statements just where the content is known as a value, or another arm is missing or not
known as a value. -/
theorem redundant_braces (params : List Pattern) (e : Expr) (before : List Stmt)
    (hole : Expr.ArmHole) (arm : List Stmt) :
    ((∃ error, UpdateFunction.ofClosure params e = .error error ∧
          UpdateFunction.ofClosure params e.inBraces = .error error) ∨
        ∃ plain braced, UpdateFunction.ofClosure params e = .ok plain ∧
          UpdateFunction.ofClosure params e.inBraces = .ok braced ∧
          UpdateFunction.InBraces e plain braced) ∧
      (Stmt.toNodes true (before ++ [.expr (hole.fill (Expr.braced arm)) false]) =
          Stmt.toNodes true (before ++ [.expr (hole.fill arm) false]) ↔
        Expr.isValueBlock arm = true ∨ hole.othersAreValues = false) :=
  ⟨UpdateFunction.ofClosure_inBraces params e,
    Expr.ArmHole.toNodes_fill_braced_iff before hole arm⟩

/-- Two texts have different statements if a test tells them apart. -/
theorem UpdateFunction.exists_body_ne {text text' : String} (test : List Node → Bool)
    (h : Attempt.succeeds (fun f => test f.body) (read text) = true)
    (h' : Attempt.succeeds (fun f => !test f.body) (read text') = true) :
    ∃ f g, read text = .ok f ∧ read text' = .ok g ∧ f.body ≠ g.body := by
  obtain ⟨f, hf, htest⟩ := Attempt.exists_of_succeeds h
  obtain ⟨g, hg, htest'⟩ := Attempt.exists_of_succeeds h'
  refine ⟨f, g, hf, hg, fun heq => ?_⟩
  rw [← heq, htest] at htest'
  cases htest'

/-- A return as body is lost without braces, and an arm with a local makes the `if` a value that is
lost in its arm with them. -/
theorem braces_change_return_and_arm :
    (∃ plain braced, UpdateFunction.read "|s, dt| return s.p.value" = .ok plain ∧
      UpdateFunction.read "|s, dt| \x7b return s.p.value \x7d" = .ok braced ∧
      plain.body ≠ braced.body) ∧
    ∃ plain braced,
      UpdateFunction.read
        "|s, dt| \x7b if dt > 0.0 \x7b let x = 1.0; x \x7d else \x7b 2.0 \x7d \x7d" = .ok plain ∧
      UpdateFunction.read
        "|s, dt| \x7b if dt > 0.0 \x7b \x7b let x = 1.0; x \x7d \x7d else \x7b 2.0 \x7d \x7d" =
          .ok braced ∧
      plain.body ≠ braced.body := by
  constructor
  · refine UpdateFunction.exists_body_ne (fun body => body.any fun n => n.lostText?.isSome) ?_ ?_
    · decide +kernel
    · decide +kernel
  · refine UpdateFunction.exists_body_ne (fun body => !body.any Node.isReturn) ?_ ?_
    · decide +kernel
    · decide +kernel

end HybridStep
