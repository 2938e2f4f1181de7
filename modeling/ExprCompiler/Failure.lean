import ExprCompiler.Operation
import ExprCompiler.Program.Basic
import ExprCompiler.Text.Quoted

/-
  Everything that can go wrong, and how it is worded.

  Key definitions include:
    * `LexError`
    * `ParseError`
    * `ArithmeticError`
    * `Cause`
    * `Context`
    * `Failure`
    * `Failure.message`

  A failure has one cause and any number of contexts, each
  of which says what was being done when it arose.
-/

------------------------------------------------------------
-- Errors with a Place in the Source
------------------------------------------------------------

namespace ExprCompiler

/- Why a character cannot be part of a token. -/
inductive LexReason where
  | invalidSymbol (c : Char)
  | overflow (digits : List Char)
  | described (text : String)
deriving DecidableEq, Repr

namespace LexReason

/- The wording of a reason. -/
def message : LexReason → String
| .invalidSymbol c =>
    "invalid symbol '" ++ String.singleton c ++ "'"
| .overflow digits =>
    "number literal " ++
      quotedWith '\x22' (digits.map .char) ++
      " overflows 32 bits"
| .described text => text

end LexReason

/- A line cannot be cut into tokens. -/
structure LexError where
  offset : Int
  char : Int
  reason : LexReason
deriving DecidableEq, Repr

namespace LexError

/- The wording of an error. -/
def message
    (e : LexError) :
    String :=
  "lex error at offset " ++ toString e.offset ++ ": " ++
    e.reason.message

end LexError

/- What would have continued an expression. -/
inductive Expectation where
  | number
  | closeParen
  | operator
  | described (text : String)
deriving DecidableEq, Repr

namespace Expectation

/- The wording of an expectation. -/
def message : Expectation → String
| .number => "number"
| .closeParen => "')'"
| .operator => "operator"
| .described text => text

end Expectation

/-
  A list of tokens is no expression. Nothing is found at the
  end of the input.
-/
structure ParseError where
  offset : Int
  expected : Expectation
  found : Option String
deriving DecidableEq, Repr

namespace ParseError

/- The wording of what was found. -/
def foundMessage : Option String → String
| some text => "'" ++ text ++ "'"
| none => "end of input"

/- The wording of an error where its place is shown. -/
def reason
    (e : ParseError) :
    String :=
  "expected " ++ e.expected.message ++ ", found " ++
    foundMessage e.found

/- The wording of an error. -/
def message
    (e : ParseError) :
    String :=
  "parse error at offset " ++ toString e.offset ++ ": " ++
    e.reason

end ParseError

------------------------------------------------------------
-- Causes
------------------------------------------------------------

/- An operation has no result on its operands. -/
structure ArithmeticError where
  op : BinaryOp
  left : Int32
  right : Int32
deriving DecidableEq, Repr

namespace ArithmeticError

/- The wording of an error. -/
def message
    (e : ArithmeticError) :
    String :=
  "division by zero: " ++ toString e.left.toInt ++ " " ++
    e.op.symbol ++ " " ++ toString e.right.toInt

end ArithmeticError

/- The root cause of a failure. -/
inductive Cause where
  | lex (e : LexError)
  | parse (e : ParseError)
  | arithmetic (e : ArithmeticError)
  | stackUnderflow
  | unbalancedStack
  | unknownOp
  | unsupportedTarget
  | unknownTarget (name : Text)
  | unknownPolicy (name : Text)
  | lineTooLong
  | described (text : String)
deriving DecidableEq, Repr

namespace Cause

/- The wording of a cause. -/
def message : Cause → String
| .lex e => e.message
| .parse e => e.message
| .arithmetic e => e.message
| .stackUnderflow => "machine: stack underflow"
| .unbalancedStack =>
    "machine: program must leave exactly one value"
| .unknownOp => "unknown operation"
| .unsupportedTarget => "unsupported target unknown"
| .unknownTarget name =>
    "unknown target " ++ name.quoted ++
      ", expected asm, llvm or eval"
| .unknownPolicy name =>
    "unknown overflow policy " ++ name.quoted ++
      ", expected wrap or check"
| .lineTooLong => "bufio.Scanner: token too long"
| .described text => text

end Cause

------------------------------------------------------------
-- Contexts
------------------------------------------------------------

/- A stage of compilation. -/
inductive Stage where
  | lex
  | parse
  | generate
  | asm
  | llvm
  | eval
deriving DecidableEq, Repr

namespace Stage

/- The name of a stage. -/
def name : Stage → String
| .lex => "lex"
| .parse => "parse"
| .generate => "generate"
| .asm => "asm"
| .llvm => "llvm"
| .eval => "eval"

end Stage

/- What was being done when a failure arose. -/
inductive Context where
  | stage (s : Stage)
  | instruction (index : Nat) (i : Instruction)
  | opcode (code : UInt8)
  | unary (op : UnaryOp)
  | binary (op : BinaryOp)
  | missingNode
  | valuesLeft (count : Nat)
  | described (text : String)
deriving DecidableEq, Repr

namespace Context

/- The wording of a context. -/
def message : Context → String
| .stage s => s.name
| .instruction index i =>
    "instruction " ++ toString index ++ " (" ++ i.text ++ ")"
| .opcode code => "opcode " ++ toString code.toNat
| .unary op => "unary '" ++ op.symbol ++ "'"
| .binary op => "binary '" ++ op.symbol ++ "'"
| .missingNode => "node <nil>"
| .valuesLeft count => toString count ++ " values left"
| .described text => text

end Context

------------------------------------------------------------
-- Failures
------------------------------------------------------------

/- A cause with its contexts, outermost first. -/
structure Failure where
  cause : Cause
  contexts : List Context := []
deriving DecidableEq, Repr

namespace Failure

/- Puts a failure into one more context. -/
def within
    (context : Context)
    (f : Failure) :
    Failure :=
  { f with contexts := context :: f.contexts }

/- Each context comes before what it encloses. -/
def message
    (f : Failure) :
    String :=
  f.contexts.foldr
    (fun context text => context.message ++ ": " ++ text)
    f.cause.message

/- An operation that is not known. -/
def unknownOp
    (context : Context) :
    Failure :=
  ⟨.unknownOp, [context]⟩

end Failure

end ExprCompiler
