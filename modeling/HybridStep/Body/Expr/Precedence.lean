import HybridStep.Body.Expr

/-! # How tightly operators bind

The precedence of the operators between, before and after expressions, and of the expressions that
they form. -/

namespace HybridStep

/-- How tightly an operator binds: the higher, the tighter. -/
abbrev Precedence := Nat

namespace Precedence

/-- Below every operator: jumps with a value, and closures. -/
def lowest : Precedence := 0

/-- Assignments, augmented ones too. -/
def assign : Precedence := 1

/-- The dots of a range. -/
def range : Precedence := 2

/-- Disjunctions. -/
def or : Precedence := 3

/-- Conjunctions. -/
def and : Precedence := 4

/-- A `let` used as a condition. -/
def binding : Precedence := 5

/-- Comparisons. -/
def compare : Precedence := 6

/-- Bitwise disjunctions. -/
def bitOr : Precedence := 7

/-- Bitwise exclusive disjunctions. -/
def bitXor : Precedence := 8

/-- Bitwise conjunctions. -/
def bitAnd : Precedence := 9

/-- Shifts. -/
def shift : Precedence := 10

/-- Sums and differences. -/
def sum : Precedence := 11

/-- Products, quotients and remainders. -/
def product : Precedence := 12

/-- Casts. -/
def cast : Precedence := 13

/-- Operators in front of an operand, and attributes. -/
def leading : Precedence := 14

/-- Above every operator: calls, fields and closed forms. -/
def closed : Precedence := 15

end Precedence

/-- The written operator. -/
def CmpOp.text : CmpOp → String
  | eq => "=="
  | ne => "!="
  | lt => "<"
  | le => "<="
  | gt => ">"
  | ge => ">="

/-- The written operator. -/
def BoolOp.text : BoolOp → String
  | and => "&&"
  | or => "||"

namespace BinaryOp

/-- How tightly the operator binds. A power is written as a call. -/
def precedence : BinaryOp → Precedence
  | add | sub => .sum
  | mul | div | mod => .product
  | pow => .closed
  | bitAnd => .bitAnd
  | bitOr => .bitOr
  | bitXor => .bitXor
  | shl | shr => .shift

end BinaryOp

namespace InfixOp

/-- The written operator. -/
def text : InfixOp → String
  | binary op => op.text
  | compare op => op.text
  | logical op => op.text
  | augment op => op.text ++ "="

/-- How tightly the operator binds. -/
def precedence : InfixOp → Precedence
  | binary op => op.precedence
  | compare _ => .compare
  | logical .and => .and
  | logical .or => .or
  | augment _ => .assign

/-- Whether an expression could start with the operator. -/
def beginsExpr : InfixOp → Bool
  | binary .sub | binary .mul | binary .bitAnd | binary .bitOr | binary .shl => true
  | compare .lt => true
  | logical _ => true
  | _ => false

/-- Whether generic arguments could start with the operator. -/
def beginsArguments : InfixOp → Bool
  | binary .shl | compare .lt => true
  | _ => false

end InfixOp

namespace Expr

/-- The precedence of a closed form, which attributes in front lower. -/
def closedPrecedence (attributes : List TokenTree) : Precedence :=
  if attributes.isEmpty then .closed else .leading

/-- The precedence of a jump, which is closed without a value. -/
def jumpPrecedence (value : Option Expr) : Precedence :=
  if value.isSome then .lowest else .closed

/-- The precedence of the operator that forms an expression. -/
def precedence : Expr → Precedence
  | mk attributes (.closure _ _ typed _) =>
    if typed then closedPrecedence attributes else .lowest
  | mk _ (.leap _ value) => jumpPrecedence value
  | mk _ (.ret value) => jumpPrecedence value
  | mk _ (.yield_ value) => jumpPrecedence value
  | mk _ (.assign ..) => .assign
  | mk _ (.range ..) => .range
  | mk _ (.operation op _ _) => op.precedence
  | mk _ (.binding ..) => .binding
  | mk _ (.cast ..) => .cast
  | mk _ (.borrow ..) => .leading
  | mk _ (.unary ..) => .leading
  | mk attributes _ => closedPrecedence attributes

end Expr

end HybridStep
