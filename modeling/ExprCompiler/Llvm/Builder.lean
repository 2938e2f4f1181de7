import ExprCompiler.Expr.Basic
import ExprCompiler.Failure
import ExprCompiler.Llvm.Basic

/-
  Expressions as LLVM functions.

  Key definitions include:
    * `Llvm.Draft`
    * `Llvm.Draft.division`
    * `Expr.load`
    * `Expr.llvm`

  A division guards against a divisor of zero, which aborts,
  and against minus one, for which negation avoids the other
  undefined quotient. It ends the block that it starts in;
  what follows goes to the block where its cases meet again.
-/

------------------------------------------------------------
-- Drafts
------------------------------------------------------------

namespace ExprCompiler

namespace Llvm

/-
  A function under construction: its finished blocks, the
  block being filled, and how many results and divisions it
  has so far. Blocks and instructions are kept newest first.
-/
structure Draft where
  blocks : List Block := []
  label : Label := .entry
  body : List Instr := []
  results : Nat := 0
  divisions : Nat := 0
deriving DecidableEq, Repr

namespace Draft

/- Appends an arithmetic instruction. -/
def arith
    (op : ArithOp)
    (left right : Value)
    (d : Draft) :
    Value × Draft :=
  (.result d.results,
   { d with
     body := .arith d.results op left right :: d.body
     results := d.results + 1 })

/- Appends a division. -/
def division
    (left right : Value)
    (d : Draft) :
    Value × Draft :=
  let n := d.divisions
  let r := d.results
  let start : Block :=
    ⟨d.label,
      (.isEqual r right (.number 0) :: d.body).reverse,
      .branch (.result r) (.zero n) (.check n)⟩
  let zero : Block := ⟨.zero n, [.callAbort], .unreachable⟩
  let check : Block :=
    ⟨.check n, [.isEqual (r + 1) right (.number (-1))],
      .branch (.result (r + 1)) (.negate n) (.divide n)⟩
  let negate : Block :=
    ⟨.negate n, [.arith (r + 2) .mul left (.number (-1))],
      .jump (.join n)⟩
  let divide : Block :=
    ⟨.divide n, [.arith (r + 3) .sdiv left right],
      .jump (.join n)⟩
  let meet : Instr :=
    .phi (r + 4) ⟨.result (r + 2), .negate n⟩
      ⟨.result (r + 3), .divide n⟩
  (.result (r + 4),
   { blocks :=
       divide :: negate :: check :: zero :: start :: d.blocks
     label := .join n
     body := [meet]
     results := r + 5
     divisions := n + 1 })

/- Ends the function with the value that it returns. -/
def finish
    (v : Value)
    (d : Draft) :
    Function :=
  let last : Block := ⟨d.label, d.body.reverse, .ret v⟩
  ⟨(last :: d.blocks).reverse⟩

end Draft

end Llvm

------------------------------------------------------------
-- Expressions
------------------------------------------------------------

namespace UnaryOp

/- Applies an operation to a value in a draft. -/
def load
    (op : UnaryOp)
    (v : Llvm.Value)
    (d : Llvm.Draft) :
    Except Failure (Llvm.Value × Llvm.Draft) :=
  match op with
  | .plus => .ok (v, d)
  | .minus => .ok (d.arith .mul v (.number (-1)))
  | .unknown _ _ => .error (.unknownOp (.unary op))

end UnaryOp

namespace BinaryOp

/- Applies an operation to two values in a draft. -/
def load
    (op : BinaryOp)
    (left right : Llvm.Value)
    (d : Llvm.Draft) :
    Except Failure (Llvm.Value × Llvm.Draft) :=
  match op with
  | .add => .ok (d.arith .add left right)
  | .sub => .ok (d.arith .sub left right)
  | .mul => .ok (d.arith .mul left right)
  | .div => .ok (d.division left right)
  | .unknown _ _ => .error (.unknownOp (.binary op))

end BinaryOp

namespace Expr

/-
  Appends the computation of a tree to a draft. Operands
  come first, so the first node at fault in postorder is
  reported.
-/
def load : Expr → Llvm.Draft →
    Except Failure (Llvm.Value × Llvm.Draft)
| .missing, _ => .error (.unknownOp .missingNode)
| .number value, d => .ok (.number value.toInt32, d)
| .unary op x, d => do
    let (v, d) ← x.load d
    op.load v d
| .binary op l r, d => do
    let (left, d) ← l.load d
    let (right, d) ← r.load d
    op.load left right d

/- The function that returns the value of a tree. -/
def llvm
    (e : Expr) :
    Except Failure Llvm.Function := do
  let (v, d) ← e.load {}
  return d.finish v

end Expr

end ExprCompiler
