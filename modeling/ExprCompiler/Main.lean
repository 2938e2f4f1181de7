import ExprCompiler.Command.Session
import Std.Time

/-
  The command itself.

  Key definitions include:
    * `main`

  Only this module reads and writes streams. Standard input
  is read if no expression is given.
-/

------------------------------------------------------------
-- Streams
------------------------------------------------------------

namespace ExprCompiler

/- Reads a stream to its end. -/
partial def readToEnd
    (stream : IO.FS.Stream)
    (seen : ByteArray) :
    IO ByteArray := do
  let piece ← stream.read 65536
  if piece.isEmpty then
    return seen
  else
    readToEnd stream (seen ++ piece)

/- Writes a text to a stream. -/
def writeText
    (stream : IO.FS.Stream)
    (t : Text) :
    IO Unit := do
  stream.write ⟨t.toArray⟩
  stream.flush

/- The current time as it is written in the log. -/
def timeStamp : IO String := do
  let now ← Std.Time.DateTime.now
  return now.format "uuuu-MM-dd'T'HH:mm:ss.SSSXX"

/- The outcome of a call with the given arguments. -/
def outcomeOf
    (args : List String) :
    IO Outcome := do
  match Job.ofArguments (args.map Text.ofString) with
  | .error outcome => return outcome
  | .ok job =>
      if job.expressions.isEmpty then
        let input ← readToEnd (← IO.getStdin) .empty
        return job.run input.toList
      else
        return job.run []

end ExprCompiler

------------------------------------------------------------
-- Entry Point
------------------------------------------------------------

open ExprCompiler in
def main
    (args : List String) :
    IO UInt32 := do
  let outcome ← outcomeOf args
  writeText (← IO.getStdout) outcome.output
  let errors ← IO.getStderr
  for notice in outcome.notices do
    writeText errors (notice.render (← timeStamp))
  return outcome.exit.toUInt32
