/-
  The part of x86-64 assembly that programs are put out in.

  Key definitions include:
    * `Assembly.Register`
    * `Assembly.Label`
    * `Assembly.Instr`
    * `Assembly.Line`
    * `Assembly.Line.render`

  Stack slots are 64 bits wide; arithmetic is done in the
  lower halves of the registers.
-/

------------------------------------------------------------
-- Registers and Labels
------------------------------------------------------------

namespace ExprCompiler

namespace Assembly

/- The registers in use. -/
inductive Register where
  | a
  | di
deriving DecidableEq, Repr

namespace Register

/- The name of the whole register. -/
def name : Register → String
| .a => "rax"
| .di => "rdi"

/- The name of its lower 32 bits. -/
def lowName : Register → String
| .a => "eax"
| .di => "edi"

end Register

/-
  Places to jump to: the abort, and two for each division,
  which are told apart by the division's number.
-/
inductive Label where
  | divisionByZero
  | divide (n : Nat)
  | divided (n : Nat)
deriving DecidableEq, Repr

namespace Label

/- The name of a label. -/
def name : Label → String
| .divisionByZero => ".L.div_by_zero"
| .divide n => ".L.idiv." ++ toString n
| .divided n => ".L.idiv_end." ++ toString n

end Label

------------------------------------------------------------
-- Instructions
------------------------------------------------------------

/- Arithmetic that leaves its result in the first operand. -/
inductive ArithOp where
  | add
  | sub
  | imul
deriving DecidableEq, Repr

namespace ArithOp

/- The mnemonic of an operation. -/
def name : ArithOp → String
| .add => "add"
| .sub => "sub"
| .imul => "imul"

end ArithOp

/- When a jump is taken, judged by the last comparison. -/
inductive Condition where
  | always
  | equal
  | notEqual
deriving DecidableEq, Repr

namespace Condition

/- The mnemonic of a jump. -/
def name : Condition → String
| .always => "jmp"
| .equal => "je"
| .notEqual => "jne"

end Condition

/-
  Instructions. Pushes and pops move whole registers; all
  others work on the lower halves.
-/
inductive Instr where
  | pushNumber (v : Int32)
  | push (r : Register)
  | pop (r : Register)
  | neg (r : Register)
  | arith (op : ArithOp) (dst src : Register)
  | test (left right : Register)
  | compare (r : Register) (v : Int32)
  | jump (when : Condition) (target : Label)
  | cdq
  | idiv (r : Register)
  | ret
  | callAbort
deriving DecidableEq, Repr

namespace Instr

/- The text of an instruction. -/
def render : Instr → String
| .pushNumber v => "push " ++ toString v.toInt
| .push r => "push " ++ r.name
| .pop r => "pop " ++ r.name
| .neg r => "neg " ++ r.lowName
| .arith op dst src =>
    op.name ++ " " ++ dst.lowName ++ ", " ++ src.lowName
| .test left right =>
    "test " ++ left.lowName ++ ", " ++ right.lowName
| .compare r v =>
    "cmp " ++ r.lowName ++ ", " ++ toString v.toInt
| .jump when target => when.name ++ " " ++ target.name
| .cdq => "cdq"
| .idiv r => "idiv " ++ r.lowName
| .ret => "ret"
| .callAbort => "call abort"

end Instr

------------------------------------------------------------
-- Lines
------------------------------------------------------------

/- A line of assembly. -/
inductive Line where
  | intelSyntax
  | globalMain
  | mainLabel
  | label (l : Label)
  | instr (i : Instr)
deriving DecidableEq, Repr

namespace Line

/- The text of a line, with its end. -/
def render : Line → String
| .intelSyntax => ".intel_syntax noprefix\n"
| .globalMain => ".globl main\n"
| .mainLabel => "main:\n"
| .label l => l.name ++ ":\n"
| .instr i => "  " ++ i.render ++ "\n"

end Line

end Assembly

end ExprCompiler
