import ExprCompiler.Token.Basic

/-
  A place in a list of tokens.

  Key definitions include:
    * `Cursor`
    * `Cursor.offset`
-/

------------------------------------------------------------
-- Cursors
------------------------------------------------------------

namespace ExprCompiler

/-
  The tokens that are still to be read, and the offset that
  stands for the end of the input.
-/
structure Cursor where
  rest : List PlacedToken
  limit : Int
deriving DecidableEq, Repr

namespace Cursor

/- The next token, if there is one. -/
def peek?
    (c : Cursor) :
    Option PlacedToken :=
  c.rest.head?

/- Steps over the next token, if there is one. -/
def advance
    (c : Cursor) :
    Cursor :=
  { c with rest := c.rest.tail }

/- Where the next token begins, or where the input ends. -/
def offset
    (c : Cursor) :
    Int :=
  match c.rest with
  | [] => c.limit
  | t :: _ => t.offset

end Cursor

end ExprCompiler
