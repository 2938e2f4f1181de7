import ExprCompiler.Command.Arguments
import ExprCompiler.Command.Input
import ExprCompiler.Compilation
import ExprCompiler.Diagnostic

/-
  What a call of the command does.

  Key definitions include:
    * `Notice`
    * `Outcome`
    * `Job`
    * `Job.ofArguments`
    * `Job.emitAll`
    * `runCommand`

  The expressions to compile are the arguments or, if there
  are none, the lines of the input. Each is put out on its
  own; one that fails does not keep the others back.
-/

------------------------------------------------------------
-- Outcomes
------------------------------------------------------------

namespace ExprCompiler

/- Something to be shown on the error stream. -/
inductive Notice where
  | plain (t : Text)
  | entry (e : Log.Entry)
deriving DecidableEq, Repr

namespace Notice

/- The text of a notice that is shown at the given time. -/
def render
    (stamp : String) :
    Notice → Text
| .plain t => t
| .entry e => e.render stamp

end Notice

/- How a call of the command ends. -/
structure Outcome where
  exit : Nat
  output : Text
  notices : List Notice
deriving DecidableEq, Repr

namespace Outcome

/- An outcome that logs an error and puts out nothing. -/
def fault
    (message : String) :
    Outcome :=
  ⟨2, [], [.entry ⟨.error, message, []⟩]⟩

end Outcome

------------------------------------------------------------
-- Jobs
------------------------------------------------------------

/- How the command is used. -/
def usage : Text := Text.ofString ("\n" ++
  "Usage: ninecc [flags] [EXPR...]\n" ++
  "Compiles each arithmetic expression, " ++
  "or each line of stdin when none is given.\n" ++
  "\n" ++
  "  -h, --help              " ++
  "Print usage information (this message) and quit\n" ++
  "      --overflow string   " ++
  "Number literals wider than 32 bits: " ++
  "wrap or check (default \"wrap\")\n" ++
  "  -t, --target string     " ++
  "Output format: asm, llvm or eval (default \"asm\")\n" ++
  "      --verbose           " ++
  "Log every compilation stage\n")

/- What a call of the command asks for. -/
structure Job where
  settings : Settings
  verbose : Bool
  expressions : List Text
deriving DecidableEq, Repr

namespace Job

/- The outcome of arguments that cannot be read. -/
def misused
    (e : ArgumentError) :
    Outcome :=
  let message := e.message ++ Text.newline
  ⟨2, message, [.plain message, .plain usage]⟩

/- The settings that the options name. -/
def settings?
    (o : Options) :
    Except Failure Settings := do
  let target ← Target.parse o.target
  let overflow ← OverflowPolicy.parse o.overflow
  return ⟨target, overflow⟩

/- The job that arguments ask for, unless they end the call. -/
def ofArguments
    (args : List Text) :
    Except Outcome Job :=
  match Options.parse {} args with
  | .error e => .error (misused e)
  | .ok (o, expressions) =>
      if o.help then
        .error ⟨0, [], [.plain usage]⟩
      else
        match settings? o with
        | .error f => .error (.fault f.message)
        | .ok settings => .ok ⟨settings, o.verbose, expressions⟩

/- What is shown about a line that was put out. -/
def notices
    (job : Job)
    (line : Text)
    (e : Emitted) :
    List Notice :=
  (if job.verbose then e.log.map .entry else []) ++
    match e.outcome with
    | .ok _ => []
    | .error f => (f.report? line).toList.map .plain

/- Puts out lines, each on its own. -/
def emitAll
    (job : Job)
    (lines : List Text) :
    Outcome :=
  let results := lines.map fun line =>
    (line, emit job.settings line {})
  { exit :=
      if results.all fun r => r.2.outcome.isOk then 0 else 1
    output := results.flatMap fun r =>
      Text.ofString r.2.sink.output
    notices := results.flatMap fun r => job.notices r.1 r.2 }

/- Puts out the lines of an input stream. -/
def emitInput
    (job : Job)
    (input : Text) :
    Outcome :=
  let read := input.readLines
  match read.failure with
  | some f => .fault ("Failed to read input: " ++ f.message)
  | none => job.emitAll read.lines

/- Puts out the expressions, or the input if there are none. -/
def run
    (job : Job)
    (input : Text) :
    Outcome :=
  match job.expressions with
  | [] => job.emitInput input
  | expressions => job.emitAll expressions

end Job

/- A whole call of the command. -/
def runCommand
    (args : List Text)
    (input : Text) :
    Outcome :=
  match Job.ofArguments args with
  | .error outcome => outcome
  | .ok job => job.run input

end ExprCompiler
