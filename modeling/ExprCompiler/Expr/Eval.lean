import ExprCompiler.Expr.Basic
import ExprCompiler.Failure

/-
  The value of an expression in 32-bit arithmetic.

  Key definitions include:
    * `UnaryOp.apply`
    * `BinaryOp.apply`
    * `Expr.eval`

  Results wrap around, and division drops the fraction. The
  only operation without a result is a division by zero.
-/

------------------------------------------------------------
-- Operations on Numbers
------------------------------------------------------------

namespace ExprCompiler

namespace UnaryOp

/- Applies an operation to a number. -/
def apply : UnaryOp → Int32 → Except Failure Int32
| .plus, v => .ok v
| .minus, v => .ok (-v)
| .unknown s h, _ => .error (.unknownOp (.unary (.unknown s h)))

end UnaryOp

/- Division, which refuses a divisor of zero. -/
def divide
    (left right : Int32) :
    Except Failure Int32 :=
  if right = 0 then
    .error ⟨.arithmetic ⟨.div, left, right⟩, []⟩
  else
    .ok (left / right)

namespace BinaryOp

/- Applies an operation to two numbers. -/
def apply :
    BinaryOp → Int32 → Int32 → Except Failure Int32
| .add, l, r => .ok (l + r)
| .sub, l, r => .ok (l - r)
| .mul, l, r => .ok (l * r)
| .div, l, r => divide l r
| .unknown s h, _, _ =>
    .error (.unknownOp (.binary (.unknown s h)))

end BinaryOp

------------------------------------------------------------
-- Evaluation
------------------------------------------------------------

namespace Expr

/- The value of a tree; operands come first, left to right. -/
def eval : Expr → Except Failure Int32
| .missing => .error (.unknownOp .missingNode)
| .number value => .ok value.toInt32
| .unary op x => do
    op.apply (← x.eval)
| .binary op l r => do
    let left ← l.eval
    let right ← r.eval
    op.apply left right

end Expr

end ExprCompiler
