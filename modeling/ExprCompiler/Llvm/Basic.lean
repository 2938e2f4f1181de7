import ExprCompiler.Llvm.Literal

/-
  The part of the LLVM language that expressions are put out
  in: one function that takes nothing and returns a 32-bit
  integer.

  Key definitions include:
    * `Llvm.Value`
    * `Llvm.Instr`
    * `Llvm.Block`
    * `Llvm.Function`
    * `Llvm.Function.render`

  A block ends with exactly one terminator, which is a field
  of its own.
-/

------------------------------------------------------------
-- Values and Labels
------------------------------------------------------------

namespace ExprCompiler

namespace Llvm

/- A constant, or the numbered result of an instruction. -/
inductive Value where
  | number (v : Int32)
  | result (n : Nat)
deriving DecidableEq, Repr

namespace Value

/- The text of a value. -/
def render : Value → String
| .number v => literal v
| .result n => "%" ++ toString n

/- The text of a value with its type in front. -/
def typed
    (v : Value) :
    String :=
  "i32 " ++ v.render

end Value

/-
  The first block of the function, and the blocks of a
  division, which are told apart by the division's number.
-/
inductive Label where
  | entry
  | zero (n : Nat)
  | check (n : Nat)
  | negate (n : Nat)
  | divide (n : Nat)
  | join (n : Nat)
deriving DecidableEq, Repr

namespace Label

/- The name of a block. -/
def name : Label → String
| .entry => "entry"
| .zero n => "div.zero." ++ toString n
| .check n => "div.check." ++ toString n
| .negate n => "div.neg." ++ toString n
| .divide n => "div.sdiv." ++ toString n
| .join n => "div.end." ++ toString n

end Label

------------------------------------------------------------
-- Instructions
------------------------------------------------------------

/- Arithmetic on two operands. -/
inductive ArithOp where
  | add
  | sub
  | mul
  | sdiv
deriving DecidableEq, Repr

namespace ArithOp

/- The mnemonic of an operation. -/
def name : ArithOp → String
| .add => "add"
| .sub => "sub"
| .mul => "mul"
| .sdiv => "sdiv"

end ArithOp

/- A value together with the block that control comes from. -/
structure Incoming where
  value : Value
  source : Label
deriving DecidableEq, Repr

namespace Incoming

/- The text of an incoming value. -/
def render
    (i : Incoming) :
    String :=
  "[ " ++ i.value.render ++ ", %" ++ i.source.name ++ " ]"

end Incoming

/- Instructions, with the number of their result. -/
inductive Instr where
  | arith (n : Nat) (op : ArithOp) (left right : Value)
  | isEqual (n : Nat) (left right : Value)
  | phi (n : Nat) (first second : Incoming)
  | callAbort
deriving DecidableEq, Repr

namespace Instr

/- The text of an instruction. -/
def render : Instr → String
| .arith n op left right =>
    (Value.result n).render ++ " = " ++ op.name ++ " " ++
      left.typed ++ ", " ++ right.render
| .isEqual n left right =>
    (Value.result n).render ++ " = icmp eq " ++
      left.typed ++ ", " ++ right.render
| .phi n first second =>
    (Value.result n).render ++ " = phi i32 " ++
      first.render ++ ", " ++ second.render
| .callAbort => "call void @abort()"

end Instr

/- How control leaves a block. -/
inductive Terminator where
  | ret (v : Value)
  | jump (target : Label)
  | branch (condition : Value) (yes no : Label)
  | unreachable
deriving DecidableEq, Repr

namespace Terminator

/- The text of a terminator. -/
def render : Terminator → String
| .ret v => "ret " ++ v.typed
| .jump target => "br label %" ++ target.name
| .branch condition yes no =>
    "br i1 " ++ condition.render ++ ", label %" ++
      yes.name ++ ", label %" ++ no.name
| .unreachable => "unreachable"

end Terminator

------------------------------------------------------------
-- Blocks and Functions
------------------------------------------------------------

/- A stretch of instructions that is run from end to end. -/
structure Block where
  label : Label
  body : List Instr
  terminator : Terminator
deriving DecidableEq, Repr

namespace Block

/- The text of a block, one instruction to a line. -/
def render
    (b : Block) :
    String :=
  b.label.name ++ ":\n" ++
    String.join (b.body.map fun i => "\t" ++ i.render ++ "\n") ++
    "\t" ++ b.terminator.render ++ "\n"

end Block

/- The main function; control enters at its first block. -/
structure Function where
  blocks : List Block
deriving DecidableEq, Repr

namespace Function

/- The text of a module with the main function. -/
def render
    (f : Function) :
    String :=
  "declare void @abort()\n\ndefine i32 @main() \x7b\n" ++
    "\n".intercalate (f.blocks.map Block.render) ++
    "\x7d\n"

end Function

end Llvm

end ExprCompiler
