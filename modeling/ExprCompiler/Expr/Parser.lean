import ExprCompiler.Expr.Basic
import ExprCompiler.Failure
import ExprCompiler.Token.Cursor

/-
  The expression that a list of tokens spells.

  Key definitions include:
    * `Pending`
    * `ParseError.ofFound`
    * `Reading`
    * `Parser.operand`
    * `Parser.operator`
    * `Cursor.expr`
    * `Expr.parse`

  Sums are made of products, products of factors, and a
  factor is a number or a group in parentheses, with at most
  one sign in front. Operators of one level associate to the
  left.

  Tokens are read one at a time. What was read and still
  waits for an operand is kept aside, one `Pending` for each
  group that is open, so reading is a recursion on the list
  of tokens at any depth of nesting.
-/

------------------------------------------------------------
-- Operators That Wait
------------------------------------------------------------

namespace ExprCompiler

/-
  The operators of one group that wait for their right
  operand: a sum, a product within it, and a sign.
-/
structure Pending where
  sum : Option (Expr × BinaryOp) := none
  product : Option (Expr × BinaryOp) := none
  sign : Option UnaryOp := none
deriving DecidableEq, Repr

namespace Pending

/- Supplies the right operand of a waiting operator. -/
def complete
    (waiting : Option (Expr × BinaryOp))
    (right : Expr) :
    Expr :=
  match waiting with
  | none => right
  | some (left, op) => .binary op left right

/- The factor that ends with the given primary. -/
def factor
    (p : Pending)
    (primary : Expr) :
    Expr :=
  match p.sign with
  | none => primary
  | some op => .unary op primary

/- The product that ends with the given primary. -/
def productOf
    (p : Pending)
    (primary : Expr) :
    Expr :=
  complete p.product (p.factor primary)

/- The sum that ends with the given primary. -/
def sumOf
    (p : Pending)
    (primary : Expr) :
    Expr :=
  complete p.sum (p.productOf primary)

/- A sign is read. -/
def withSign
    (p : Pending)
    (op : UnaryOp) :
    Pending :=
  { p with sign := some op }

/- An operator of a product is read after a primary. -/
def timesAfter
    (p : Pending)
    (primary : Expr)
    (op : BinaryOp) :
    Pending :=
  { sum := p.sum, product := some (p.productOf primary, op) }

/- An operator of a sum is read after a primary. -/
def plusAfter
    (p : Pending)
    (primary : Expr)
    (op : BinaryOp) :
    Pending :=
  { sum := some (p.sumOf primary, op) }

end Pending

------------------------------------------------------------
-- Reading Tokens
------------------------------------------------------------

/-
  The error of a token that was found where something else
  was expected. Where no token was found the input has come
  to its end, which is at `limit`.
-/
def ParseError.ofFound
    (limit : Int)
    (expected : Expectation) :
    Option PlacedToken → ParseError
| none => ⟨limit, expected, none⟩
| some t => ⟨t.offset, expected, some t.token.text⟩

namespace ParseError

section Found

variable (limit : Int) (expected : Expectation)
variable (found : Option PlacedToken)

@[simp] theorem expected_ofFound :
    (ofFound limit expected found).expected = expected := by
  cases found <;> rfl

@[simp] theorem found_ofFound :
    (ofFound limit expected found).found =
      found.map (·.token.text) := by
  cases found <;> rfl

end Found

end ParseError

/-
  How reading an expression ends: with the tree and the
  tokens behind it, or with an error and the tokens that are
  left when it arises.
-/
inductive Reading where
  | tree (e : Expr) (rest : List PlacedToken)
  | stuck (e : ParseError) (rest : List PlacedToken)
deriving DecidableEq, Repr

namespace Parser

/-
  Ends an expression in front of tokens that cannot continue
  it. Groups that are still open want to be closed.
-/
def finish
    (limit : Int)
    (outer : List Pending)
    (e : Expr)
    (rest : List PlacedToken) :
    Reading :=
  match outer with
  | [] => .tree e rest
  | _ :: _ =>
      .stuck (.ofFound limit .closeParen rest.head?) rest

mutual

/- Reads on where an operand has to begin. -/
def operand
    (limit : Int)
    (outer : List Pending)
    (p : Pending) :
    List PlacedToken → Reading
| [] => .stuck (.ofFound limit .number none) []
| t :: rest =>
    match t.token.kind, p.sign with
    | .number, _ =>
        operator limit outer p (.number t.token.value) rest
    | .openParen, _ => operand limit (p :: outer) {} rest
    | .plus, none =>
        operand limit outer (p.withSign .plus) rest
    | .minus, none =>
        operand limit outer (p.withSign .minus) rest
    | _, _ =>
        .stuck (.ofFound limit .number (some t)) (t :: rest)

/- Reads on behind a primary. -/
def operator
    (limit : Int)
    (outer : List Pending)
    (p : Pending)
    (primary : Expr) :
    List PlacedToken → Reading
| [] => finish limit outer (p.sumOf primary) []
| t :: rest =>
    match t.token.kind, outer with
    | .asterisk, _ =>
        operand limit outer (p.timesAfter primary .mul) rest
    | .slash, _ =>
        operand limit outer (p.timesAfter primary .div) rest
    | .plus, _ =>
        operand limit outer (p.plusAfter primary .add) rest
    | .minus, _ =>
        operand limit outer (p.plusAfter primary .sub) rest
    | .closeParen, q :: outer =>
        operator limit outer q (p.sumOf primary) rest
    | _, _ =>
        finish limit outer (p.sumOf primary) (t :: rest)

end

/-
  Reads the longest expression at the head of tokens of an
  input that ends at `limit`.
-/
def read
    (limit : Int)
    (ts : List PlacedToken) :
    Reading :=
  operand limit [] {} ts

end Parser

------------------------------------------------------------
-- Parsing
------------------------------------------------------------

namespace Cursor

/-
  Reads the longest expression at a cursor. The cursor then
  stands behind it, or where reading could not go on.
-/
def expr
    (c : Cursor) :
    Except ParseError Expr × Cursor :=
  match Parser.read c.limit c.rest with
  | .tree e rest => (.ok e, { c with rest := rest })
  | .stuck e rest => (.error e, { c with rest := rest })

end Cursor

namespace Expr

/- The expression that all tokens of an input make. -/
def parse
    (limit : Int)
    (ts : List PlacedToken) :
    Except ParseError Expr :=
  match Cursor.expr ⟨ts, limit⟩ with
  | (.error e, _) => .error e
  | (.ok e, stop) =>
      match stop.peek? with
      | none => .ok e
      | some t =>
          .error (.ofFound limit .operator (some t))

end Expr

end ExprCompiler
