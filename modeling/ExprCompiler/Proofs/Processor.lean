import ExprCompiler.Assembly.Basic
import ExprCompiler.Proofs.Transition

/-
  A processor that executes assembly.

  Key definitions include:
    * `Assembly.Processor`
    * `Assembly.Processor.execute`
    * `Assembly.Processor.step`
    * `Assembly.Processor.AtMain`

  The meaning of the instructions is that of x86-64, with
  the stack as a list of 64-bit slots. Where x86-64 leaves a
  flag undefined, the flag has no value, and a jump that
  depends on it is stuck.
-/

------------------------------------------------------------
-- Words and Halves
------------------------------------------------------------

namespace ExprCompiler

namespace Assembly

/- The contents of a register or a stack slot. -/
abbrev Word := BitVec 64

namespace Word

/- The lower half of a word, as a signed number. -/
def low
    (w : Word) :
    Int32 :=
  .ofBitVec (w.setWidth 32)

/- A write to the lower half clears the upper half. -/
def ofLow
    (v : Int32) :
    Word :=
  v.toBitVec.setWidth 64

/- A pushed number is extended by its sign. -/
def ofNumber
    (v : Int32) :
    Word :=
  v.toBitVec.signExtend 64

@[simp] theorem low_ofLow
    (v : Int32) :
    (ofLow v).low = v := by
  simp [low, ofLow]

@[simp] theorem low_ofNumber
    (v : Int32) :
    (ofNumber v).low = v := by
  have hBits :
      (v.toBitVec.signExtend 64).setWidth 32 =
        v.toBitVec := by
    grind
  simp [low, ofNumber, hBits]

end Word

/- The result of arithmetic, cut to 32 bits. -/
def ArithOp.apply : ArithOp → Int32 → Int32 → Int32
| .add, left, right => left + right
| .sub, left, right => left - right
| .imul, left, right => left * right

------------------------------------------------------------
-- Definitions of Labels
------------------------------------------------------------

/- The name that a line defines. -/
def Line.defines? : Line → Option String
| .mainLabel => some "main"
| .label l => some l.name
| _ => none

/-
  The lines from the definition of a name on. There are none
  if the name is not defined.
-/
def linesFrom
    (name : String)
    (lines : List Line) :
    List Line :=
  lines.dropWhile fun line => line.defines? ≠ some name

------------------------------------------------------------
-- States
------------------------------------------------------------

/-
  A processor: the lines ahead, the registers, the zero flag
  if it is defined, and the stack with its top first.
-/
structure Processor where
  code : List Line
  a : Word
  di : Word
  d : Word
  zero : Option Bool
  stack : List Word
deriving DecidableEq, Repr

namespace Processor

/- How execution ends. -/
inductive Ending where
  | returned
  | aborted
  | divisionFault
  | stuck
deriving DecidableEq, Repr

/- The contents of a register. -/
def get
    (r : Register)
    (s : Processor) :
    Word :=
  match r with
  | .a => s.a
  | .di => s.di

/- Replaces the contents of a register. -/
def set
    (r : Register)
    (w : Word)
    (s : Processor) :
    Processor :=
  match r with
  | .a => { s with a := w }
  | .di => { s with di := w }

/- The lower half of a register. -/
def low
    (r : Register)
    (s : Processor) :
    Int32 :=
  (s.get r).low

/- Writes a result to the lower half of a register. -/
def setLow
    (r : Register)
    (v : Int32)
    (s : Processor) :
    Processor :=
  s.set r (.ofLow v)

/- Sets the zero flag by a result. -/
def setZero
    (v : Int32)
    (s : Processor) :
    Processor :=
  { s with zero := some (v == 0) }

/- Puts a word on the stack. -/
def push
    (w : Word)
    (s : Processor) :
    Processor :=
  { s with stack := w :: s.stack }

------------------------------------------------------------
-- Instructions
------------------------------------------------------------

/-
  Arithmetic on lower halves. A product leaves the zero flag
  undefined.
-/
def arith
    (op : ArithOp)
    (dst src : Register)
    (s : Processor) :
    Processor :=
  let result := op.apply (s.low dst) (s.low src)
  match op with
  | .imul => { s.setLow dst result with zero := none }
  | _ => (s.setLow dst result).setZero result

/- Whether a jump is taken, if the flag decides it. -/
def takes
    (when : Condition)
    (s : Processor) :
    Option Bool :=
  match when with
  | .always => some true
  | .equal => s.zero
  | .notEqual => s.zero.map not

/- The signed number in the lower halves of `d` and `a`. -/
def dividend
    (s : Processor) :
    Int :=
  (s.d.low.toBitVec ++ s.a.low.toBitVec).toInt

/-
  Signed division of `dividend`. It faults if the divisor is
  zero or the quotient does not fit in 32 bits.
-/
def idiv
    (r : Register)
    (s : Processor) :
    Transition Processor Ending :=
  let divisor := (s.low r).toInt
  let quotient := s.dividend.tdiv divisor
  if divisor = 0 ∨ quotient < Int32.minValue.toInt ∨
      Int32.maxValue.toInt < quotient then
    .halt .divisionFault
  else
    .next { s with
      a := .ofLow (.ofInt quotient)
      d := .ofLow (.ofInt (s.dividend.tmod divisor))
      zero := none }

/- Executes an instruction that has been taken from `code`. -/
def execute
    (program : List Line)
    (i : Instr)
    (s : Processor) :
    Transition Processor Ending :=
  match i with
  | .pushNumber v => .next (s.push (.ofNumber v))
  | .push r => .next (s.push (s.get r))
  | .pop r =>
      match s.stack with
      | [] => .halt .stuck
      | w :: rest => .next ({ s with stack := rest }.set r w)
  | .neg r => .next ((s.setLow r (-s.low r)).setZero (-s.low r))
  | .arith op dst src => .next (s.arith op dst src)
  | .test left right =>
      .next (s.setZero (s.low left &&& s.low right))
  | .compare r v => .next (s.setZero (s.low r - v))
  | .jump when target =>
      match s.takes when with
      | none => .halt .stuck
      | some false => .next s
      | some true =>
          .next { s with
            code := linesFrom target.name program }
  | .cdq =>
      .next { s with
        d := .ofLow (if s.a.low < 0 then -1 else 0) }
  | .idiv r => s.idiv r
  | .ret => .halt .returned
  | .callAbort => .halt .aborted

/-
  Executes the next line. Only instructions do something;
  where no line is left, execution is stuck.
-/
def step
    (program : List Line)
    (s : Processor) :
    Transition Processor Ending :=
  match s.code with
  | [] => .halt .stuck
  | .instr i :: rest =>
      { s with code := rest }.execute program i
  | _ :: rest => .next { s with code := rest }

/-
  The state in which a program is called: at its `main`,
  with the return address on top of the stack.
-/
structure AtMain
    (program : List Line)
    (returnAddress : Word)
    (frame : List Word)
    (s : Processor) :
    Prop where
  code : s.code = linesFrom "main" program
  stack : s.stack = returnAddress :: frame

end Processor

end Assembly

end ExprCompiler
