import HybridStep.Proofs.Success

/-! # What a body loses

Syntax that is not supported has no constraint where it stands as a statement, or is all that is
assigned or returned. A body loses such a text if some path comes to it: blocks are opened, an `if`
leads into either of its arms and from there to what follows, and a path ends with its first return.
-/

namespace HybridStep

namespace Node

/-! ### Texts that are lost -/

/-- The text that a value is as a whole, whatever it is dereferenced. -/
def wholeText? : Node → Option String
  | unsupported text => some text
  | unary .identity operand => operand.wholeText?
  | _ => none

/-- The text that a statement loses: its own, or the one that is all it assigns or returns. -/
def lostText? : Node → Option String
  | unsupported text => some text
  | assign _ value => value.wholeText?
  | ret (some value) => value.wholeText?
  | _ => none

/-- Whether a statement does one thing: it is neither a block nor an `if`. -/
def isPlain : Node → Bool
  | block _ | branch .. => false
  | _ => true

/-- Whether a statement is a return. -/
def isReturn : Node → Bool
  | ret _ => true
  | _ => false

/-- Some path through statements comes to a statement before its first return, or ends there. -/
inductive Reaches : List Node → Node → Prop
  | here {n : Node} {rest : List Node} : n.isPlain → Reaches (n :: rest) n
  | later {n x : Node} {rest : List Node} : n.isPlain → n.isReturn = false → Reaches rest x →
    Reaches (n :: rest) x
  | block {body rest : List Node} {x : Node} : Reaches (body ++ rest) x →
    Reaches (.block body :: rest) x
  | yes {test x : Node} {body rest : List Node} {orelse : Option (List Node)} :
    Reaches (body ++ rest) x → Reaches (.branch test body orelse :: rest) x
  | no {test x : Node} {body rest : List Node} {orelse : Option (List Node)} :
    Reaches (orelse.getD [] ++ rest) x → Reaches (.branch test body orelse :: rest) x

/-- A body loses a text if a statement does that some path comes to. -/
def Loses (body : List Node) (text : String) : Prop :=
  ∃ n, Reaches body n ∧ n.lostText? = some text

end Node

/-! ### Paths as a flow -/

namespace Flow

/-- The statements and returns of a flow. -/
def statements : Flow → List Node
  | done => []
  | step n rest => n :: rest.statements
  | ret value => [.ret value]
  | fork _ _ yes no => yes.statements ++ no.statements

theorem prependList_append (rest : Flow) (ms : List Node) : ∀ ns : List Node,
    prependList rest (ns ++ ms) = prependList (prependList rest ms) ns
  | [] => rfl
  | n :: ns => by rw [List.cons_append, prependList, prependList_append rest ms ns, prependList]

theorem ofBody_cons (n : Node) (rest : List Node) :
    ofBody (n :: rest) = prepend (ofBody rest) n := rfl

theorem ofBody_append (ns rest : List Node) :
    ofBody (ns ++ rest) = prependList (ofBody rest) ns := prependList_append done rest ns

theorem prependElse_eq (rest : Flow) (orelse : Option (List Node)) :
    prependElse rest orelse = prependList rest (orelse.getD []) := by
  cases orelse <;> rfl

/-- A plain statement is a step, or it ends the path. -/
theorem prepend_plain {n : Node} (rest : Flow) (h : n.isPlain) :
    prepend rest n = step n rest ∧ n.isReturn = false ∨ ∃ value, n = .ret value := by
  cases n with
  | block | branch => cases h
  | ret value => exact .inr ⟨value, rfl⟩
  | _ => exact .inl ⟨rfl, rfl⟩

variable {x : Node}

theorem mem_statements_of_reaches {body : List Node} (h : Node.Reaches body x) :
    x ∈ (ofBody body).statements := by
  induction h with
  | @here n rest hn =>
    rw [ofBody_cons]
    rcases prepend_plain (ofBody rest) hn with ⟨hstep, -⟩ | ⟨value, rfl⟩
    · rw [hstep]
      exact List.mem_cons_self
    · exact List.mem_cons_self
  | @later n x rest hn hret _ ih =>
    rw [ofBody_cons]
    rcases prepend_plain (ofBody rest) hn with ⟨hstep, -⟩ | ⟨value, rfl⟩
    · rw [hstep]
      exact List.mem_cons_of_mem _ ih
    · cases hret
  | block _ ih => rwa [ofBody_append] at ih
  | yes _ ih =>
    rw [ofBody_append] at ih
    exact List.mem_append_left _ ih
  | no _ ih =>
    rw [ofBody_append, ← prependElse_eq] at ih
    exact List.mem_append_right _ ih

section

variable {rest : List Node}

theorem reaches_of_step {n : Node} (hrest : ∀ y ∈ (ofBody rest).statements, Node.Reaches rest y)
    (hplain : n.isPlain) (hret : n.isReturn = false) (hx : x ∈ (step n (ofBody rest)).statements) :
    Node.Reaches (n :: rest) x := by
  rcases List.mem_cons.1 hx with rfl | hx
  · exact .here hplain
  · exact .later hplain hret (hrest x hx)

mutual

theorem reaches_of_prepend {rest : List Node}
    (hrest : ∀ y ∈ (ofBody rest).statements, Node.Reaches rest y) : (n : Node) →
    ∀ x ∈ (prepend (ofBody rest) n).statements, Node.Reaches (n :: rest) x
  | .ret _, x, hx => by
    obtain rfl := List.mem_singleton.1 hx
    exact .here rfl
  | .branch _ body orelse, x, hx =>
    (List.mem_append.1 hx).elim (fun hx => .yes (reaches_of_prependList hrest body x hx))
      fun hx => .no (reaches_of_prependElse hrest orelse x hx)
  | .block body, x, hx => .block (reaches_of_prependList hrest body x hx)
  | .literal _, _, hx => reaches_of_step hrest rfl rfl hx
  | .name _, _, hx => reaches_of_step hrest rfl rfl hx
  | .access _, _, hx => reaches_of_step hrest rfl rfl hx
  | .assign .., _, hx => reaches_of_step hrest rfl rfl hx
  | .augment .., _, hx => reaches_of_step hrest rfl rfl hx
  | .unary .., _, hx => reaches_of_step hrest rfl rfl hx
  | .binary .., _, hx => reaches_of_step hrest rfl rfl hx
  | .logical .., _, hx => reaches_of_step hrest rfl rfl hx
  | .compare .., _, hx => reaches_of_step hrest rfl rfl hx
  | .choice .., _, hx => reaches_of_step hrest rfl rfl hx
  | .unsupported _, _, hx => reaches_of_step hrest rfl rfl hx

theorem reaches_of_prependList {rest : List Node}
    (hrest : ∀ y ∈ (ofBody rest).statements, Node.Reaches rest y) : (ns : List Node) →
    ∀ x ∈ (prependList (ofBody rest) ns).statements, Node.Reaches (ns ++ rest) x
  | [], x, hx => hrest x hx
  | n :: ns, x, hx => by
    rw [prependList, ← ofBody_append] at hx
    have hmore : ∀ y ∈ (ofBody (ns ++ rest)).statements, Node.Reaches (ns ++ rest) y := by
      rw [ofBody_append]
      exact reaches_of_prependList hrest ns
    exact reaches_of_prepend hmore n x hx

theorem reaches_of_prependElse {rest : List Node}
    (hrest : ∀ y ∈ (ofBody rest).statements, Node.Reaches rest y) :
    (orelse : Option (List Node)) → ∀ x ∈ (prependElse (ofBody rest) orelse).statements,
      Node.Reaches (orelse.getD [] ++ rest) x
  | none, x, hx => hrest x hx
  | some body, x, hx => reaches_of_prependList hrest body x hx

end

end

/-- **The flow of a body has the statements that its paths come to.** -/
theorem mem_statements_ofBody {body : List Node} :
    x ∈ (ofBody body).statements ↔ Node.Reaches body x := by
  refine ⟨fun hx => ?_, mem_statements_of_reaches⟩
  have hnone : ∀ y ∈ (ofBody []).statements, Node.Reaches [] y := fun y hy => nomatch hy
  have hreaches := reaches_of_prependList hnone body x hx
  rwa [List.append_nil] at hreaches

end Flow

/-! ### Comparisons -/

namespace Node

mutual

/-- Every comparison in a node compares something, and has an operator for each further operand. -/
def Formed : Node → Prop
  | compare left ops others =>
    (ops ≠ [] ∧ ops.length = others.length) ∧ left.Formed ∧ FormedList others
  | unary _ operand => operand.Formed
  | binary _ left right => left.Formed ∧ right.Formed
  | logical _ values => FormedList values
  | choice test body orelse => test.Formed ∧ body.Formed ∧ orelse.Formed
  | assign targets value => FormedList targets ∧ value.Formed
  | augment target _ value => target.Formed ∧ value.Formed
  | branch test body orelse => test.Formed ∧ FormedList body ∧ FormedElse orelse
  | ret value => FormedValue value
  | block body => FormedList body
  | literal _ => True
  | name _ => True
  | access _ => True
  | unsupported _ => True

/-- Every comparison in several nodes is formed. -/
def FormedList : List Node → Prop
  | [] => True
  | n :: ns => n.Formed ∧ FormedList ns

/-- Every comparison in an arm is formed, if it is there. -/
def FormedElse : Option (List Node) → Prop
  | none => True
  | some body => FormedList body

/-- Every comparison in a value is formed, if it is there. -/
def FormedValue : Option Node → Prop
  | none => True
  | some value => value.Formed

end

theorem formedList_iff : ∀ {ns : List Node}, FormedList ns ↔ ∀ n ∈ ns, n.Formed
  | [] => by simp [FormedList]
  | n :: ns => by rw [FormedList, formedList_iff, List.forall_mem_cons]

theorem formedList_append {ns ms : List Node} :
    FormedList (ns ++ ms) ↔ FormedList ns ∧ FormedList ms := by
  simp only [formedList_iff, List.forall_mem_append]

end Node

open Node (FormedList FormedElse FormedValue)

namespace Flow

/-- Every comparison in the statements, tests and returns of a flow is formed. -/
def Formed : Flow → Prop
  | done => True
  | step n rest => n.Formed ∧ rest.Formed
  | ret value => FormedValue value
  | fork test _ yes no => test.Formed ∧ yes.Formed ∧ no.Formed

mutual

theorem formed_prepend {rest : Flow} (hrest : rest.Formed) :
    (n : Node) → n.Formed → (prepend rest n).Formed
  | .ret _, hn => hn
  | .branch _ body orelse, hn =>
    ⟨hn.1, formed_prependList hrest body hn.2.1, formed_prependElse hrest orelse hn.2.2⟩
  | .block body, hn => formed_prependList hrest body hn
  | .literal _, hn => ⟨hn, hrest⟩
  | .name _, hn => ⟨hn, hrest⟩
  | .access _, hn => ⟨hn, hrest⟩
  | .assign .., hn => ⟨hn, hrest⟩
  | .augment .., hn => ⟨hn, hrest⟩
  | .unary .., hn => ⟨hn, hrest⟩
  | .binary .., hn => ⟨hn, hrest⟩
  | .logical .., hn => ⟨hn, hrest⟩
  | .compare .., hn => ⟨hn, hrest⟩
  | .choice .., hn => ⟨hn, hrest⟩
  | .unsupported _, hn => ⟨hn, hrest⟩

theorem formed_prependList {rest : Flow} (hrest : rest.Formed) :
    (ns : List Node) → FormedList ns → (prependList rest ns).Formed
  | [], _ => hrest
  | n :: ns, hns => formed_prepend (formed_prependList hrest ns hns.2) n hns.1

theorem formed_prependElse {rest : Flow} (hrest : rest.Formed) :
    (orelse : Option (List Node)) → FormedElse orelse → (prependElse rest orelse).Formed
  | none, _ => hrest
  | some body, hbody => formed_prependList hrest body hbody

end

theorem formed_ofBody {body : List Node} (h : FormedList body) : (ofBody body).Formed := by
  have hdone : Flow.done.Formed := trivial
  exact formed_prependList hdone body h

end Flow

namespace Expr

theorem formed_junctionParts {op : BoolOp} {e : Expr} {n : Node} (h : n.Formed) :
    FormedList (junctionParts op e n) := by
  unfold junctionParts
  split
  · split
    · exact h
    · exact ⟨h, trivial⟩
  · exact ⟨h, trivial⟩

mutual

theorem formed_toNode : (e : Expr) → e.toNode.Formed
  | .mk attributes form => by
    cases form with
    | literal trees value => cases value <;> trivial
    | path trees name => cases name <;> trivial
    | field base member =>
      rw [toNode]
      split <;> trivial
    | unary op operand => exact formed_toNode operand
    | enclosed inner => exact formed_toNode inner
    | cast inner type openPath => exact formed_toNode inner
    | borrow mark isRaw inner =>
      cases isRaw with
      | true => trivial
      | false => exact formed_toNode inner
    | operation op left right =>
      have hleft := formed_toNode left
      have hright := formed_toNode right
      cases op with
      | binary op => exact ⟨hleft, hright⟩
      | compare op => exact ⟨⟨by simp, rfl⟩, hleft, hright, trivial⟩
      | logical op =>
        exact Node.formedList_append.2 ⟨formed_junctionParts hleft, formed_junctionParts hright⟩
      | augment op => trivial
    | conditional test body orelse =>
      have htest := formed_toNode test
      have hyes := formed_valueNode body
      have hno := formed_elseNode orelse
      rw [toNode]
      split
      · next yes no hbody horelse => exact ⟨htest, hyes yes hbody, hno no horelse⟩
      · trivial
    | block label inner body =>
      have hvalue := formed_valueNode body
      cases label with
      | some label => trivial
      | none =>
        rw [toNode]
        cases hbody : valueNode body with
        | none => trivial
        | some n => exact hvalue n hbody
    | method receiver name generics args trailing =>
      have hreceiver := formed_toNode receiver
      have hargs := formed_toNodes args
      rw [toNode]
      split
      · next exponent hexponent =>
        rw [hexponent] at hargs
        split
        · exact ⟨hreceiver, hargs.1⟩
        · trivial
      · trivial
    | _ => trivial

theorem formed_toNodes : (es : List Expr) → FormedList (toNodes es)
  | [] => trivial
  | e :: es => ⟨formed_toNode e, formed_toNodes es⟩

theorem formed_elseNode : (e : Option Expr) → ∀ n, elseNode e = some n → n.Formed
  | none, _, h => nomatch h
  | some e, _, h => Option.some.inj h ▸ formed_toNode e

theorem formed_valueNode : (body : List Stmt) → ∀ n, valueNode body = some n → n.Formed
  | [.expr e false], n, h => by
    have he := formed_toNode e
    rw [valueNode] at h
    split at h
    · cases h
    · exact Option.some.inj h ▸ he
  | [], _, h => nomatch h
  | [.expr _ true], _, h => nomatch h
  | [.bind ..], _, h => nomatch h
  | [.skipped _], _, h => nomatch h
  | .expr _ true :: _ :: _, _, h => nomatch h
  | .expr _ false :: _ :: _, _, h => nomatch h
  | .bind .. :: _ :: _, _, h => nomatch h
  | .skipped _ :: _ :: _, _, h => nomatch h

end

end Expr

namespace Stmt

mutual

theorem formed_toNodes (tail : Bool) : (body : List Stmt) → FormedList (toNodes tail body)
  | [] => by
    rw [toNodes]
    trivial
  | .bind attributes pattern typed value alternative :: rest => by
    have hrest := formed_toNodes tail rest
    rw [toNodes.eq_def]
    refine Node.formedList_append.2 ⟨?_, hrest⟩
    split
    · trivial
    · next e =>
      split
      · exact ⟨⟨⟨trivial, trivial⟩, e.formed_toNode⟩, trivial⟩
      · exact ⟨trivial, trivial⟩
  | .skipped _ :: rest => by
    have hrest := formed_toNodes tail rest
    rwa [toNodes]
  | .expr (.mk attributes form) terminated :: rest => by
    have hrest := formed_toNodes tail rest
    rw [toNodes.eq_def]
    refine Node.formedList_append.2 ⟨?_, hrest⟩
    have hone : ∀ (last : Bool) (e : Expr),
        FormedList (if last then [.ret (some e.toNode)] else [e.toNode]) := fun last e => by
      cases last <;> exact ⟨e.formed_toNode, trivial⟩
    generalize (tail && !terminated && rest.isEmpty) = last
    cases form with
    | assign target value =>
      exact ⟨⟨Expr.formed_toNodes _, Expr.formed_toNode _⟩, trivial⟩
    | operation op left right =>
      cases op with
      | augment op => exact ⟨⟨left.formed_toNode, right.formed_toNode⟩, trivial⟩
      | _ => exact hone _ _
    | ret value =>
      refine ⟨?_, trivial⟩
      cases value with
      | none => trivial
      | some value => exact value.formed_toNode
    | conditional test body orelse =>
      have hbody := formed_toNodes last body
      have horelse := formed_elseNodes last orelse
      dsimp only
      split
      · exact ⟨Expr.formed_toNode _, trivial⟩
      · exact ⟨⟨test.formed_toNode, hbody, horelse⟩, trivial⟩
    | block label inner body =>
      have hbody := formed_toNodes last body
      cases label with
      | none => exact hbody
      | some label => exact hone _ _
    | _ => exact hone _ _

theorem formed_elseNodes (tail : Bool) : (e : Option Expr) → FormedElse (elseNodes tail e)
  | none => by
    rw [elseNodes]
    trivial
  | some (.mk attributes form) => by
    rw [elseNodes.eq_def]
    cases form with
    | block label inner body =>
      have hbody := formed_toNodes tail body
      exact hbody
    | conditional test body orelse =>
      have hbody := formed_toNodes tail body
      have horelse := formed_elseNodes tail orelse
      exact ⟨⟨test.formed_toNode, hbody, horelse⟩, trivial⟩
    | _ => exact ⟨Expr.formed_toNode _, trivial⟩

end

end Stmt

/-- **A body that has been read is formed.** -/
theorem UpdateFunction.formed_of_read {text : String} {f : UpdateFunction}
    (h : UpdateFunction.read text = .ok f) : FormedList f.body := by
  have hitem {params : List Pattern} {body : List Stmt} (h : ofItem params body = .ok f) :
      FormedList f.body := by
    obtain ⟨names, -, rfl⟩ := Attempt.map_ok.1 h
    exact Stmt.formed_toNodes true body
  have hclosure {params : List Pattern} {body : Expr} (h : ofClosure params body = .ok f) :
      FormedList f.body := by
    obtain ⟨names, -, rfl⟩ := Attempt.map_ok.1 h
    split
    · exact Stmt.formed_toNodes true _
    · exact ⟨body.formed_toNode, trivial⟩
  unfold read at h
  split at h
  · cases h
  · split at h
    · split at h
      · exact hitem h
      · cases h
    · split at h
      · cases h
      · split at h
        · exact hclosure h
        · cases h

end HybridStep
