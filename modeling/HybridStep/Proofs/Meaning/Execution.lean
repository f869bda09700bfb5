import HybridStep.Body.Flow
import HybridStep.Encoding.Context
import HybridStep.Proofs.Meaning.Operation

/-! # Execution of bodies

What it means to run the body of an update: statements act one after the other on a store of values,
a branch takes the arm that its test selects, and a return writes the target and ends the run. The
sorts of names decide where an integer is widened. Syntax that is passed through gives an unknown
value where it is assigned or returned as a whole; the store holds what these values turn out to be.

A body runs as its flow does: along each path of the flow the same statements act in the same
order. -/

namespace HybridStep

/-- What a run works on.

* `dt` is the time step;
* `val` holds the values of ports and locals;
* `unknown` holds the values of passed-through syntax in the order in which they are met, each for
  the name to which it is given. -/
structure Store (K : Type) where
  dt : K
  val : VarKey → Val K
  unknown : Nat → VarKey → Val K

/-- A store in which a run goes on, or the one with which it has returned. -/
inductive Ending (K : Type) where
  | running (s : Store K)
  | returned (s : Store K)

variable {K : Type}

/-- The store after a run. -/
def Ending.store : Ending K → Store K
  | running s => s
  | returned s => s

/-- Goes on with what follows, unless the run has returned. -/
def Ending.andThen (o : Ending K) (next : Store K → Option (Ending K)) : Option (Ending K) :=
  match o with
  | running s => next s
  | returned s => some (returned s)

/-- Goes on with what follows up to the end, unless the run has returned. -/
def Ending.finally (o : Ending K) (next : Store K → Option (Store K)) : Option (Store K) :=
  match o with
  | running s => next s
  | returned s => some s

namespace Store

/-- Gives a name a value. -/
def set (s : Store K) (key : VarKey) (v : Val K) : Store K :=
  { s with val := Function.update s.val key v }

/-- Moves on to the next unknown value. -/
def skip (s : Store K) : Store K := { s with unknown := fun n => s.unknown (n + 1) }

end Store

namespace Context

variable (c : Context)

/-- The sort of a port or a local. -/
def sortOfKey : VarKey → TermSort
  | .port p => c.model.sortOfPort p
  | .local name => c.sortOfLocal name

/-- The name that a target of an assignment writes. The time step cannot be written. -/
def target? (n : Node) : Option VarKey := if c.isStep n then none else c.key? n

section

variable [Field K] [LinearOrder K] (A : Arith K)

/-! ### Expressions -/

mutual

/-- The value of an expression. The sort of the place into which it flows decides how a text is
read. The arm that a choice does not take still decides, by its sort, whether the other one is
widened. -/
def eval (st : Store K) (hint : Option TermSort) : Node → Option (Datum K)
  | .literal (.int n) => some (.val (.int n.val))
  | .literal (.real q) => some (.val (.real q))
  | .literal (.bool b) => some (.val (.bool b))
  | .literal (.text t) =>
    match hint with
    | some (.enum e) => (Val.ofText? e t).map .val
    | _ => some (.text t)
  | .name n =>
    if c.isStep (.name n) then some (.val (.real st.dt))
    else (c.key? (.name n)).map fun key => .val (st.val key)
  | .access segments => (c.key? (.access segments)).map fun key => .val (st.val key)
  | .unary .identity operand => eval st hint operand
  | .unary op operand => do
    let v ← (← eval st none operand).val?
    return .val (← op.apply? v)
  | .binary op left right => do
    let v ← (← eval st none left).val?
    let w ← (← eval st none right).val?
    return .val (← op.apply? A v w)
  | .logical op values => do return .val (.bool (op.apply (← truthsOf st values)))
  | .compare left ops others => do
    let left ← eval st none left
    let others ← evalAll st others
    return .val (.bool (BoolOp.and.apply (← CmpOp.chain? ops left others)))
  | .choice test body orelse => do
    let b ← (← eval st (some .bool) test).truth?
    let (v, w) ← (← eval st hint body).unify? (← eval st hint orelse)
    return .val (if b then v else w)
  | .unsupported _ => some .unknown
  | .assign .. | .augment .. | .branch .. | .ret _ | .block _ => none

/-- The values of operands. -/
def evalAll (st : Store K) : List Node → Option (List (Datum K))
  | [] => some []
  | n :: ns => do
    let first ← eval st none n
    let others ← evalAll st ns
    return first :: others

/-- The values of operands that are truth values. -/
def truthsOf (st : Store K) : List Node → Option (List Bool)
  | [] => some []
  | n :: ns => do
    let first ← (← eval st (some .bool) n).truth?
    let others ← truthsOf st ns
    return first :: others

end

/-! ### Statements -/

/-- Gives names a datum, each as a value of its sort. -/
def put (d : Datum K) : List VarKey → Store K → Option (Store K)
  | [], st => some st
  | key :: keys, st => do put d keys (st.set key (← d.as? (c.sortOfKey key)))

/-- Gives names an unknown value. -/
def putUnknown (st : Store K) (keys : List VarKey) : Store K :=
  (keys.foldl (fun s key => s.set key (st.unknown 0 key)) st).skip

/-- Gives names the value of an expression. -/
def store (st : Store K) (keys : List VarKey) (value : Node) : Option (Store K) := do
  match ← c.eval A st (keys.head?.map c.sortOfKey) value with
  | .unknown => return putUnknown st keys
  | d => c.put d keys st

/-- What a statement that is neither a block nor a branch nor a return does. -/
def act (st : Store K) : Node → Option (Store K)
  | .assign targets value => do c.store A st (← targets.mapM c.target?) value
  | .augment target op value => do
    let key ← c.target? target
    let operand ← (← c.eval A st none value).val?
    let combined ← op.apply? A (st.val key) operand
    c.put (.val combined) [key] st
  | _ => some st

/-- What a return does. -/
def finish (st : Store K) (value : Option Node) : Option (Store K) := do
  c.store A st [.port (← c.target)] (← value)

/-- The truth value of a test. -/
def test (st : Store K) (n : Node) : Option Bool := do (← c.eval A st (some .bool) n).truth?

/-! ### Bodies -/

mutual

/-- Executes a statement. -/
def exec (st : Store K) : Node → Option (Ending K)
  | .ret value => (c.finish A st value).map .returned
  | .branch test body orelse => do
    if ← c.test A st test then execList st body else execElse st orelse
  | .block body => execList st body
  | .assign targets value => (c.act A st (.assign targets value)).map .running
  | .augment target op value => (c.act A st (.augment target op value)).map .running
  | .literal _ | .name _ | .access _ | .unary .. | .binary .. | .logical .. | .compare ..
  | .choice .. | .unsupported _ => some (.running st)

/-- Executes several statements up to the first return. -/
def execList (st : Store K) : List Node → Option (Ending K)
  | [] => some (.running st)
  | n :: ns => do (← exec st n).andThen fun st => execList st ns

/-- Executes an arm, if it is there. -/
def execElse (st : Store K) : Option (List Node) → Option (Ending K)
  | none => some (.running st)
  | some body => execList st body

end

/-- The store after the run of a body. -/
def run (st : Store K) (body : List Node) : Option (Store K) :=
  (c.execList A st body).map Ending.store

/-- Executes a flow to the end of a path. -/
def runFlow (st : Store K) : Flow → Option (Store K)
  | .done => some st
  | .step statement rest => do runFlow (← c.act A st statement) rest
  | .ret value => c.finish A st value
  | .fork test _ yes no => do if ← c.test A st test then runFlow st yes else runFlow st no

variable {c A}

mutual

theorem runFlow_prepend (rest : Flow) (st : Store K) : (n : Node) →
    c.runFlow A st (Flow.prepend rest n) =
      (c.exec A st n).bind fun o => o.finally fun st => c.runFlow A st rest
  | .ret value => by
    rw [Flow.prepend, runFlow, exec]
    cases c.finish A st value <;> rfl
  | .branch test body orelse => by
    rw [Flow.prepend, runFlow, exec]
    cases c.test A st test with
    | none => rfl
    | some b =>
      cases b
      · exact runFlow_prependElse rest st orelse
      · exact runFlow_prependList rest st body
  | .block body => by
    rw [Flow.prepend, exec]
    exact runFlow_prependList rest st body
  | .assign targets value => by
    rw [Flow.prepend, runFlow, exec]
    cases c.act A st (.assign targets value) <;> rfl
  | .augment target op value => by
    rw [Flow.prepend, runFlow, exec]
    cases c.act A st (.augment target op value) <;> rfl
  | .literal _ | .name _ | .access _ | .unary .. | .binary .. | .logical .. | .compare ..
  | .choice .. | .unsupported _ => by
    rw [Flow.prepend, runFlow, exec]
    · simp [act, Ending.finally]

theorem runFlow_prependList (rest : Flow) (st : Store K) : (ns : List Node) →
    c.runFlow A st (Flow.prependList rest ns) =
      (c.execList A st ns).bind fun o => o.finally fun st => c.runFlow A st rest
  | [] => rfl
  | n :: ns => by
    rw [Flow.prependList, runFlow_prepend, execList]
    cases c.exec A st n with
    | none => rfl
    | some o =>
      cases o with
      | running st => exact runFlow_prependList rest st ns
      | returned st => rfl

theorem runFlow_prependElse (rest : Flow) (st : Store K) : (orelse : Option (List Node)) →
    c.runFlow A st (Flow.prependElse rest orelse) =
      (c.execElse A st orelse).bind fun o => o.finally fun st => c.runFlow A st rest
  | none => rfl
  | some body => runFlow_prependList rest st body

end

/-- **A body runs as its flow.** -/
theorem runFlow_ofBody (st : Store K) (body : List Node) :
    c.runFlow A st (Flow.ofBody body) = c.run A st body := by
  rw [Flow.ofBody, runFlow_prependList, run]
  cases c.execList A st body with
  | none => rfl
  | some o => cases o <;> rfl

end

end Context

end HybridStep
