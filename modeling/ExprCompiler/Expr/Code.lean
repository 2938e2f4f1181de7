import ExprCompiler.Expr.Basic
import ExprCompiler.Failure

/-
  The program that computes an expression.

  Key definitions include:
    * `Emission`
    * `Expr.emit`
    * `Expr.code`
    * `Program.extend`

  The operands' instructions come before the operation's.
  An operation is checked before its operands are visited,
  so the first node at fault in preorder is reported.
-/

------------------------------------------------------------
-- Instructions of Operations
------------------------------------------------------------

namespace ExprCompiler

/- The opcode of a unary operation. -/
def UnaryOp.opcode? : UnaryOp → Option Opcode
| .plus => some .pos
| .minus => some .neg
| .unknown _ _ => none

/- The opcode of a binary operation. -/
def BinaryOp.opcode? : BinaryOp → Option Opcode
| .add => some .add
| .sub => some .sub
| .mul => some .mul
| .div => some .div
| .unknown _ _ => none

------------------------------------------------------------
-- Emission
------------------------------------------------------------

/-
  Instructions put out so far, newest first, and the failure
  that ended the output, if there was one.
-/
structure Emission where
  output : List Instruction
  failure : Option Failure := none
deriving DecidableEq, Repr

namespace Emission

/- Goes on with more output unless a failure ended it. -/
def andThen
    (e : Emission)
    (next : List Instruction → Emission) :
    Emission :=
  match e.failure with
  | some _ => e
  | none => next e.output

/- Puts out the instruction of an operation at the end. -/
def apply
    (e : Emission)
    (opcode : Opcode) :
    Emission :=
  e.andThen fun output => ⟨.ofOpcode opcode :: output, none⟩

/- The instructions in the order of their execution. -/
def program
    (e : Emission) :
    Program :=
  e.output.reverse

/- Whether the output came to its end. -/
def outcome
    (e : Emission) :
    Except Failure Unit :=
  match e.failure with
  | some f => .error f
  | none => .ok ()

end Emission

namespace Expr

/-
  Puts out the instructions of a tree behind those that have
  been put out before, up to the first fault.
-/
def emit : Expr → List Instruction → Emission
| .missing, output =>
    ⟨output, some (.unknownOp .missingNode)⟩
| .number value, output => ⟨.ofNumber value :: output, none⟩
| .unary op x, output =>
    match op.opcode? with
    | none => ⟨output, some (.unknownOp (.unary op))⟩
    | some opcode => (x.emit output).apply opcode
| .binary op l r, output =>
    match op.opcode? with
    | none => ⟨output, some (.unknownOp (.binary op))⟩
    | some opcode =>
        ((l.emit output).andThen r.emit).apply opcode

/- The program of a tree, or what is wrong with the tree. -/
def code
    (e : Expr) :
    Except Failure Program :=
  let out := e.emit []
  out.outcome.map fun _ => out.program

end Expr

------------------------------------------------------------
-- Extending Programs
------------------------------------------------------------

/-
  Appends the instructions of a tree to a program, also
  those that were put out before a failure.
-/
def Program.extend
    (p : Program)
    (e : Expr) :
    Except Failure Unit × Program :=
  let out := e.emit p.reverse
  (out.outcome, out.program)

end ExprCompiler
