import ExprCompiler.Assembly.Basic
import ExprCompiler.Sink

/-
  Programs of the stack machine as assembly.

  Key definitions include:
    * `Instruction.assembly`
    * `Assembly.Listing`
    * `Program.assembly`
    * `Assembly.Writer`
    * `Assembly.Writer.write`

  The machine's stack is the processor's. A division guards
  against a divisor of zero, which aborts, and against minus
  one, for which negation avoids an overflow trap.
-/

------------------------------------------------------------
-- Instructions
------------------------------------------------------------

namespace ExprCompiler

namespace Assembly

/- Applies an operation to the two topmost slots. -/
def arithmetic
    (op : ArithOp) :
    List Line :=
  [.instr (.pop .di), .instr (.pop .a),
   .instr (.arith op .a .di), .instr (.push .a)]

/- The division with the given number. -/
def division
    (n : Nat) :
    List Line :=
  [.instr (.pop .di),
   .instr (.pop .a),
   .instr (.test .di .di),
   .instr (.jump .equal .divisionByZero),
   .instr (.compare .di (-1)),
   .instr (.jump .notEqual (.divide n)),
   .instr (.neg .a),
   .instr (.jump .always (.divided n)),
   .label (.divide n),
   .instr .cdq,
   .instr (.idiv .di),
   .label (.divided n),
   .instr (.push .a)]

end Assembly

namespace Opcode

/- The number of divisions that an opcode asks for. -/
def divisions : Opcode → Nat
| .div => 1
| _ => 0

end Opcode

namespace Instruction

/-
  The lines of an instruction, with the number that a
  division gets.
-/
def assembly
    (n : Nat)
    (i : Instruction) :
    Except Failure (List Assembly.Line) :=
  match i.opcode with
  | .push => .ok [.instr (.pushNumber i.value.toInt32)]
  | .pos => .ok [.instr (.pop .a), .instr (.push .a)]
  | .neg =>
      .ok [.instr (.pop .a), .instr (.neg .a),
        .instr (.push .a)]
  | .add => .ok (Assembly.arithmetic .add)
  | .sub => .ok (Assembly.arithmetic .sub)
  | .mul => .ok (Assembly.arithmetic .imul)
  | .div => .ok (Assembly.division n)
  | .unknown code _ =>
      .error (.unknownOp (.opcode code))

end Instruction

------------------------------------------------------------
-- Programs
------------------------------------------------------------

namespace Assembly

/-
  Lines of assembly, the number of the next division, and
  the failure that cut the lines short, if there was one.
-/
structure Listing where
  lines : List Line
  divisions : Nat
  failure : Option Failure := none
deriving DecidableEq, Repr

/- The lines of a program's instructions. -/
def body
    (n : Nat) :
    Program → Listing
| [] => ⟨[], n, none⟩
| i :: rest =>
    match i.assembly n with
    | .error f => ⟨[], n, some f⟩
    | .ok lines =>
        let out := body (n + i.opcode.divisions) rest
        { out with lines := lines ++ out.lines }

/- The lines in front of a program. -/
def header : List Line :=
  [.intelSyntax, .globalMain, .mainLabel]

/-
  The lines behind a program. There is a place to abort if
  there was a division, be it in an earlier program.
-/
def footer
    (divisions : Nat) :
    List Line :=
  [.instr (.pop .a), .instr .ret] ++
    if 0 < divisions then
      [.label .divisionByZero, .instr .callAbort]
    else
      []

end Assembly

/-
  A program as assembly whose divisions are numbered from
  `n` on. An unknown opcode leaves it without an end.
-/
def Program.assembly
    (n : Nat)
    (p : Program) :
    Assembly.Listing :=
  let out := Assembly.body n p
  match out.failure with
  | some _ => { out with lines := Assembly.header ++ out.lines }
  | none =>
      { out with
        lines := Assembly.header ++ out.lines ++
          Assembly.footer out.divisions }

------------------------------------------------------------
-- Writers
------------------------------------------------------------

namespace Assembly

/-
  A writer of assembly. It numbers divisions through all its
  programs, and a refused write ends its output for good.
-/
structure Writer where
  sink : Sink
  divisions : Nat := 0
  failure : Option Failure := none
deriving DecidableEq, Repr

namespace Writer

/- Writes lines, each on its own, until one is refused. -/
def put
    (lines : List Line)
    (w : Writer) :
    Writer :=
  match w.failure with
  | some _ => w
  | none =>
      match w.sink.writeAll (lines.map Line.render) with
      | (.error f, sink) =>
          { w with sink := sink, failure := some f }
      | (.ok _, sink) => { w with sink := sink }

/-
  Writes a program. An unknown opcode is reported in front
  of a refused write.
-/
def write
    (p : Program)
    (w : Writer) :
    Except Failure Unit × Writer :=
  let out := p.assembly w.divisions
  let w := { w.put out.lines with divisions := out.divisions }
  match out.failure <|> w.failure with
  | some f => (.error f, w)
  | none => (.ok (), w)

end Writer

end Assembly

end ExprCompiler
