/-
  Programs of the stack machine.

  Key definitions include:
    * `Opcode`
    * `Instruction`
    * `Program`
    * `Program.listing`

  An opcode is one byte. Bytes from seven on name no known
  operation and are kept as they are, so opcodes and bytes
  correspond one to one.
-/

------------------------------------------------------------
-- Opcodes
------------------------------------------------------------

namespace ExprCompiler

/- What an instruction does. -/
inductive Opcode where
  | push
  | add
  | sub
  | mul
  | div
  | neg
  | pos
  | unknown (code : UInt8) (h : 7 ≤ code)
deriving DecidableEq, Repr

namespace Opcode

/- The opcode that a byte stands for. -/
def ofCode
    (code : UInt8) :
    Opcode :=
  if h : 7 ≤ code then
    .unknown code h
  else
    match code.toNat with
    | 0 => .push
    | 1 => .add
    | 2 => .sub
    | 3 => .mul
    | 4 => .div
    | 5 => .neg
    | _ => .pos

/- The byte of an opcode. -/
def code : Opcode → UInt8
| .push => 0
| .add => 1
| .sub => 2
| .mul => 3
| .div => 4
| .neg => 5
| .pos => 6
| .unknown code _ => code

/- The mnemonic of an opcode. -/
def name : Opcode → String
| .push => "push"
| .add => "add"
| .sub => "sub"
| .mul => "mul"
| .div => "div"
| .neg => "neg"
| .pos => "pos"
| .unknown code _ => "Op(" ++ toString code.toNat ++ ")"

/- The byte of the opcode of a byte is that byte. -/
theorem code_ofCode
    (c : UInt8) :
    (ofCode c).code = c := by
  unfold ofCode
  split
  · rfl
  · rename_i hKnown
    have hLess : c.toNat < 7 := by
      simpa [UInt8.le_iff_toNat_le] using hKnown
    apply UInt8.toNat.inj
    split <;> simp_all [code]
    omega

/- An opcode is the opcode of its byte. -/
theorem ofCode_code
    (op : Opcode) :
    ofCode op.code = op := by
  cases op with
  | unknown c h => simp [code, ofCode, h]
  | _ => rfl

end Opcode

------------------------------------------------------------
-- Instructions
------------------------------------------------------------

/- An instruction; only a push makes use of its value. -/
structure Instruction where
  opcode : Opcode
  value : UInt32
deriving DecidableEq, Repr

namespace Instruction

/- Pushes a number. -/
def ofNumber
    (value : UInt32) :
    Instruction :=
  ⟨.push, value⟩

/- An instruction that needs no value. -/
def ofOpcode
    (opcode : Opcode) :
    Instruction :=
  ⟨opcode, 0⟩

/- The text of an instruction. -/
def text
    (i : Instruction) :
    String :=
  match i.opcode with
  | .push => "push " ++ toString i.value.toNat
  | opcode => opcode.name

end Instruction

------------------------------------------------------------
-- Programs
------------------------------------------------------------

/- A program is the list of its instructions. -/
abbrev Program := List Instruction

namespace Program

/- One instruction to a line. -/
def listing
    (p : Program) :
    String :=
  String.join (p.map fun i => i.text ++ "\n")

end Program

end ExprCompiler
