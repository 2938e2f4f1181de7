import ExprCompiler.Operation

/-
  Expression trees.

  Key definitions include:
    * `Expr`
    * `Expr.IsLegal`
    * `Expr.render`

  A tree may hold unknown operations and may lack nodes. The
  legal trees are those that do neither.
-/

------------------------------------------------------------
-- Trees
------------------------------------------------------------

namespace ExprCompiler

/- An expression; `missing` is a node that is not there. -/
inductive Expr where
  | missing
  | number (value : UInt32)
  | unary (op : UnaryOp) (operand : Expr)
  | binary (op : BinaryOp) (left right : Expr)
deriving DecidableEq, Repr

namespace Expr

/- A tree is legal if no node is missing or unknown. -/
def IsLegal : Expr → Prop
| .missing => False
| .number _ => True
| .unary op x => op.IsKnown ∧ x.IsLegal
| .binary op l r => op.IsKnown ∧ l.IsLegal ∧ r.IsLegal

------------------------------------------------------------
-- Rendering
------------------------------------------------------------

/-
  A tree with each operation in front of its operands and
  each application in parentheses.
-/
def render : Expr → String
| .missing => "%!s(<nil>)"
| .number value => toString value.toNat
| .unary op x => "(" ++ op.symbol ++ " " ++ x.render ++ ")"
| .binary op l r =>
    "(" ++ op.symbol ++ " " ++ l.render ++ " " ++
      r.render ++ ")"

end Expr

end ExprCompiler
