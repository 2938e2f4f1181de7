import ExprCompiler.Assembly.Writer
import ExprCompiler.Expr.Code
import ExprCompiler.Expr.Parser
import ExprCompiler.Llvm.Builder
import ExprCompiler.Log
import ExprCompiler.Program.Machine
import ExprCompiler.Token.Lexer

/-
  Lines compiled into programs and put out for a target.

  Key definitions include:
    * `Compilation`
    * `compile`
    * `emit`

  Each stage leaves an entry in the log. The output depends
  on the target; what a failed compilation puts out is
  nothing.
-/

------------------------------------------------------------
-- Compiling
------------------------------------------------------------

namespace ExprCompiler

/- Everything that is known about a compiled line. -/
structure Compilation where
  line : Text
  tokens : List PlacedToken
  tree : Expr
  program : Program
deriving DecidableEq, Repr

namespace Compilation

/- An entry about a stage of compilation. -/
def note
    (message : String)
    (fields : List Log.Field) :
    Log.Entry :=
  ⟨.debug, message, fields⟩

/- The entry about a line that has been cut into tokens. -/
def lexed
    (line : Text)
    (tokens : List PlacedToken) :
    Log.Entry :=
  note "lexed"
    [⟨"line", .text line⟩, ⟨"tokens", .count tokens.length⟩]

/- The entry about a tree that has been read. -/
def parsed
    (tree : Expr) :
    Log.Entry :=
  note "parsed" [.ofString "ast" tree.render]

/- The entry about a program that has been generated. -/
def generated
    (program : Program) :
    Log.Entry :=
  note "generated" [⟨"instructions", .count program.length⟩]

/- The entry about a stage that has failed on a line. -/
def failed
    (message : String)
    (line : Text)
    (error : String) :
    Log.Entry :=
  note message [⟨"line", .text line⟩, .ofString "error" error]

end Compilation

/- Compiles a line, and tells what is to be logged. -/
def compile
    (policy : OverflowPolicy)
    (line : Text) :
    Except Failure Compilation × List Log.Entry :=
  match lex policy line with
  | .error e =>
      (.error ⟨.lex e, [.stage .lex]⟩,
        [Compilation.failed "lexing failed" line e.message])
  | .ok tokens =>
      let log := [Compilation.lexed line tokens]
      match Expr.parse line.length tokens with
      | .error e =>
          (.error ⟨.parse e, [.stage .parse]⟩,
            log ++ [Compilation.failed "parsing failed" line
              e.message])
      | .ok tree =>
          let log := log ++ [Compilation.parsed tree]
          match tree.code with
          | .error f =>
              (.error (f.within (.stage .generate)), log)
          | .ok program =>
              (.ok ⟨line, tokens, tree, program⟩,
                log ++ [Compilation.generated program])

------------------------------------------------------------
-- Output
------------------------------------------------------------

namespace Compilation

/- Puts out assembly. -/
def emitAsm
    (c : Compilation)
    (sink : Sink) :
    Except Failure Unit × Sink :=
  let (outcome, w) :=
    Assembly.Writer.write c.program ⟨sink, 0, none⟩
  (outcome.mapError (·.within (.stage .asm)), w.sink)

/- Puts out an LLVM module. -/
def emitLlvm
    (c : Compilation)
    (sink : Sink) :
    Except Failure Unit × Sink :=
  match c.tree.llvm with
  | .error f => (.error (f.within (.stage .llvm)), sink)
  | .ok function => sink.write function.render

/- Puts out the value that the program computes. -/
def emitValue
    (c : Compilation)
    (sink : Sink) :
    Except Failure Unit × Sink :=
  match c.program.run with
  | .error f => (.error (f.within (.stage .eval)), sink)
  | .ok v => sink.write (toString v.toInt ++ "\n")

/- Puts out a compiled line in the form of the target. -/
def emit
    (target : Target)
    (c : Compilation)
    (sink : Sink) :
    Except Failure Unit × Sink :=
  match target with
  | .asm => c.emitAsm sink
  | .llvm => c.emitLlvm sink
  | .eval => c.emitValue sink
  | .unknown => (.error ⟨.unsupportedTarget, []⟩, sink)

end Compilation

/- What became of a line that was to be put out. -/
structure Emitted where
  outcome : Except Failure Unit
  sink : Sink
  log : List Log.Entry

/- Compiles a line and puts it out. -/
def emit
    (settings : Settings)
    (line : Text)
    (sink : Sink) :
    Emitted :=
  match compile settings.overflow line with
  | (.error f, log) => ⟨.error f, sink, log⟩
  | (.ok c, log) =>
      let (outcome, sink) := c.emit settings.target sink
      ⟨outcome, sink, log⟩

end ExprCompiler
