import ExprCompiler.Failure

/-
  Where output goes.

  Key definitions include:
    * `Sink`
    * `Sink.write`
    * `Sink.writeAll`
    * `Sink.output`

  A sink may have room for a limited number of writes. Every
  write beyond that is refused as a whole.
-/

------------------------------------------------------------
-- Sinks
------------------------------------------------------------

namespace ExprCompiler

/-
  A sink with what was written to it, newest first. It takes
  `room` more writes, or any number of them, and words a
  refusal in its own way.
-/
structure Sink where
  room : Option Nat := none
  refusal : String := ""
  written : List String := []
deriving DecidableEq, Repr

namespace Sink

/- Everything written so far. -/
def output
    (s : Sink) :
    String :=
  String.join s.written.reverse

/- The failure of a refused write. -/
def refused
    (s : Sink) :
    Failure :=
  ⟨.described s.refusal, []⟩

/- Writes a piece of text. -/
def write
    (piece : String)
    (s : Sink) :
    Except Failure Unit × Sink :=
  match s.room with
  | none =>
      (.ok (), { s with written := piece :: s.written })
  | some (n + 1) =>
      (.ok (),
        { s with room := some n,
                 written := piece :: s.written })
  | some 0 => (.error s.refused, s)

/- Writes pieces in order until one is refused. -/
def writeAll
    (pieces : List String)
    (s : Sink) :
    Except Failure Unit × Sink :=
  match pieces with
  | [] => (.ok (), s)
  | piece :: rest =>
      match s.write piece with
      | (.error f, s) => (.error f, s)
      | (.ok _, s) => writeAll rest s

end Sink

end ExprCompiler
