import ExprCompiler.Expr.Eval

/-
  The stack machine that runs programs.

  Key definitions include:
    * `Machine`
    * `Machine.step`
    * `Machine.run`
    * `Program.run`

  Every operation tells what it leaves on the stack, also
  when it fails: an operand that was taken before a failure
  is gone.
-/

------------------------------------------------------------
-- Machines
------------------------------------------------------------

namespace ExprCompiler

/- A machine holds a stack, with its top first. -/
structure Machine where
  stack : List Int32 := []
deriving DecidableEq, Repr

namespace Machine

/- Takes everything off the stack. -/
def reset
    (_ : Machine) :
    Machine :=
  ⟨[]⟩

/- Puts a number on top. -/
def push
    (v : Int32)
    (m : Machine) :
    Machine :=
  ⟨v :: m.stack⟩

/- Takes the number on top. -/
def pop
    (m : Machine) :
    Except Failure Int32 × Machine :=
  match m.stack with
  | [] => (.error ⟨.stackUnderflow, []⟩, m)
  | v :: rest => (.ok v, ⟨rest⟩)

------------------------------------------------------------
-- Instructions
------------------------------------------------------------

/- Replaces the top by the result of an operation. -/
def applyUnary
    (op : UnaryOp)
    (m : Machine) :
    Except Failure Unit × Machine :=
  match m.pop with
  | (.error f, m) => (.error f, m)
  | (.ok v, m) =>
      match op.apply v with
      | .error f => (.error f, m)
      | .ok result => (.ok (), m.push result)

/-
  Replaces the two topmost numbers by the result of an
  operation. The right operand is on top.
-/
def applyBinary
    (op : BinaryOp)
    (m : Machine) :
    Except Failure Unit × Machine :=
  match m.pop with
  | (.error f, m) => (.error f, m)
  | (.ok right, m) =>
      match m.pop with
      | (.error f, m) => (.error f, m)
      | (.ok left, m) =>
          match op.apply left right with
          | .error f => (.error f, m)
          | .ok result => (.ok (), m.push result)

/- Carries out one instruction. -/
def step
    (i : Instruction)
    (m : Machine) :
    Except Failure Unit × Machine :=
  match i.opcode with
  | .push => (.ok (), m.push i.value.toInt32)
  | .add => m.applyBinary .add
  | .sub => m.applyBinary .sub
  | .mul => m.applyBinary .mul
  | .div => m.applyBinary .div
  | .neg => m.applyUnary .minus
  | .pos => m.applyUnary .plus
  | .unknown code _ =>
      (.error (.unknownOp (.opcode code)), m)

------------------------------------------------------------
-- Programs
------------------------------------------------------------

/-
  Carries out instructions in order, the first of which has
  the given index in its program, until one fails.
-/
def exec
    (index : Nat) :
    Program → Machine → Except Failure Unit × Machine
| [], m => (.ok (), m)
| i :: rest, m =>
    match m.step i with
    | (.error f, m) =>
        (.error (f.within (.instruction index i)), m)
    | (.ok _, m) => exec (index + 1) rest m

/-
  Runs a program on an empty stack, whatever the machine
  held before. The program has to leave exactly one number,
  and the number stays on the stack.
-/
def run
    (p : Program)
    (m : Machine) :
    Except Failure Int32 × Machine :=
  match exec 0 p m.reset with
  | (.error f, m) => (.error f, m)
  | (.ok _, m) =>
      match m.stack with
      | [v] => (.ok v, m)
      | stack =>
          (.error ⟨.unbalancedStack,
            [.valuesLeft stack.length]⟩, m)

end Machine

/- The number that a program computes. -/
def Program.run
    (p : Program) :
    Except Failure Int32 :=
  (Machine.run p {}).1

end ExprCompiler
