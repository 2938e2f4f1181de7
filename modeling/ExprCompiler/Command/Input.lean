import ExprCompiler.Failure
import ExprCompiler.Text.CharClass

/-
  The lines of an input stream.

  Key definitions include:
    * `Text.splitLines`
    * `InputLines`
    * `Text.readLines`

  A line ends with a line feed or with the stream, and a
  carriage return in front of that is not part of it. Lines
  of white space are passed over.
-/

------------------------------------------------------------
-- Splitting
------------------------------------------------------------

namespace ExprCompiler

namespace Text

/-
  Splits a stream at line feeds, with the lines seen so far
  and the bytes of the current line, both newest first. The
  bytes after the last line feed are a line if there are any.
-/
def splitFrom
    (seen : List Text)
    (current : Text) :
    Text → List Text
| [] =>
    match current with
    | [] => seen.reverse
    | _ :: _ => (current.reverse :: seen).reverse
| b :: rest =>
    if b = 0x0A then
      splitFrom (current.reverse :: seen) [] rest
    else
      splitFrom seen (b :: current) rest

/- The lines of a stream without their line feeds. -/
def splitLines
    (stream : Text) :
    List Text :=
  splitFrom [] [] stream

/- Removes a carriage return from the end of a line. -/
def dropReturn
    (line : Text) :
    Text :=
  if line.getLast? = some 0x0D then line.dropLast else line

------------------------------------------------------------
-- Reading
------------------------------------------------------------

/- A line of this many bytes is too long to be read. -/
def lineLimit : Nat := 65536

end Text

/-
  The lines read from a stream, and the failure that ended
  the reading, if there was one.
-/
structure InputLines where
  lines : List Text
  failure : Option Failure
deriving DecidableEq, Repr

namespace Text

/- Reads lines until the stream ends or a line is too long. -/
def readLines
    (stream : Text) :
    InputLines :=
  let all := stream.splitLines
  let read := all.takeWhile fun line =>
    decide (line.length < lineLimit)
  { lines :=
      (read.map dropReturn).filter fun line => !line.isBlank
    failure :=
      if read.length < all.length then
        some ⟨.lineTooLong, []⟩
      else
        none }

end Text

end ExprCompiler
