import ExprCompiler.Failure
import ExprCompiler.Text.Basic

/-
  Failures shown in the line that they are about.

  Key definitions include:
    * `Diagnostic`
    * `Failure.diagnostic?`
    * `Failure.report?`
-/

------------------------------------------------------------
-- Diagnostics
------------------------------------------------------------

namespace ExprCompiler

/- A message about a place in a line. -/
structure Diagnostic where
  message : String
  line : Text
  offset : Int
deriving DecidableEq, Repr

namespace Diagnostic

/- The place and the message on one line. -/
def summary
    (d : Diagnostic) :
    String :=
  toString d.offset ++ ": " ++ d.message

/-
  The line, a caret at the place in it, and the message. No
  caret can be put in front of the line.
-/
def report?
    (d : Diagnostic) :
    Option Text :=
  if d.offset < 0 then
    none
  else
    some (d.line ++ Text.newline ++
      List.replicate d.offset.toNat 0x20 ++
      Text.ofString "^\n" ++
      Text.ofString d.message ++ Text.newline)

end Diagnostic

namespace Failure

/-
  Errors that have a place in the source can be shown there,
  whatever contexts they are in.
-/
def diagnostic?
    (line : Text)
    (f : Failure) :
    Option Diagnostic :=
  match f.cause with
  | .lex e => some ⟨e.reason.message, line, e.offset⟩
  | .parse e => some ⟨e.reason, line, e.offset⟩
  | _ => none

/- Shows a failure in its line, or else just words it. -/
def report?
    (line : Text)
    (f : Failure) :
    Option Text :=
  match f.diagnostic? line with
  | some d => d.report?
  | none => some (Text.ofString f.message ++ Text.newline)

end Failure

end ExprCompiler
