import ExprCompiler.Expr.Parser

/-
  The grammar of expressions.

  Key definitions include:
    * `Grammar.Level`
    * `Grammar.Derives`

  Main declarations:
    * `TokenKind.sign?_eq_some_iff`
    * `TokenKind.sumOp?_eq_some_iff`
    * `TokenKind.productOp?_eq_some_iff`

  A sum is a product, or a sum, an operator of sums and a
  product. A product is a factor, or a product, an operator
  of products and a factor. A factor is a primary with at
  most one sign in front. A primary is a number, or a sum in
  parentheses.
-/

------------------------------------------------------------
-- Meanings of Tokens
------------------------------------------------------------

namespace ExprCompiler

namespace TokenKind

/- The sign that a token is in front of a primary. -/
def sign? : TokenKind → Option UnaryOp
| .plus => some .plus
| .minus => some .minus
| _ => none

/- The operator that a token is between products. -/
def sumOp? : TokenKind → Option BinaryOp
| .plus => some .add
| .minus => some .sub
| _ => none

/- The operator that a token is between factors. -/
def productOp? : TokenKind → Option BinaryOp
| .asterisk => some .mul
| .slash => some .div
| _ => none

section Operations

variable {kind : TokenKind}

theorem sign?_eq_some_iff
    {op : UnaryOp} :
    kind.sign? = some op ↔
      (kind = .plus ∧ op = .plus) ∨
        (kind = .minus ∧ op = .minus) := by
  cases kind <;> simp [sign?, eq_comm]

theorem sumOp?_eq_some_iff
    {op : BinaryOp} :
    kind.sumOp? = some op ↔
      (kind = .plus ∧ op = .add) ∨
        (kind = .minus ∧ op = .sub) := by
  cases kind <;> simp [sumOp?, eq_comm]

theorem productOp?_eq_some_iff
    {op : BinaryOp} :
    kind.productOp? = some op ↔
      (kind = .asterisk ∧ op = .mul) ∨
        (kind = .slash ∧ op = .div) := by
  cases kind <;> simp [productOp?, eq_comm]

end Operations

end TokenKind

------------------------------------------------------------
-- Derivations
------------------------------------------------------------

namespace Grammar

/- What tokens can be derived from. -/
inductive Level where
  | sum
  | product
  | factor
  | primary
deriving DecidableEq, Repr

/-
  Tokens derive from a level, and the derivation has a tree.
  Repeated operators of one level nest to the left, a sign
  applies to its primary only, and parentheses leave nothing
  in the tree.
-/
inductive Derives : Level → List PlacedToken → Expr → Prop
  | ofProduct
      {ts : List PlacedToken}
      {e : Expr}
      (h : Derives .product ts e) :
      Derives .sum ts e
  | sum
      {ts us : List PlacedToken}
      {t : PlacedToken}
      {op : BinaryOp}
      {l r : Expr}
      (hLeft : Derives .sum ts l)
      (hOp : t.token.kind.sumOp? = some op)
      (hRight : Derives .product us r) :
      Derives .sum (ts ++ t :: us) (.binary op l r)
  | ofFactor
      {ts : List PlacedToken}
      {e : Expr}
      (h : Derives .factor ts e) :
      Derives .product ts e
  | product
      {ts us : List PlacedToken}
      {t : PlacedToken}
      {op : BinaryOp}
      {l r : Expr}
      (hLeft : Derives .product ts l)
      (hOp : t.token.kind.productOp? = some op)
      (hRight : Derives .factor us r) :
      Derives .product (ts ++ t :: us) (.binary op l r)
  | ofPrimary
      {ts : List PlacedToken}
      {e : Expr}
      (h : Derives .primary ts e) :
      Derives .factor ts e
  | signed
      {t : PlacedToken}
      {ts : List PlacedToken}
      {op : UnaryOp}
      {e : Expr}
      (hSign : t.token.kind.sign? = some op)
      (h : Derives .primary ts e) :
      Derives .factor (t :: ts) (.unary op e)
  | number
      {t : PlacedToken}
      (hKind : t.token.kind = .number) :
      Derives .primary [t] (.number t.token.value)
  | group
      {first last : PlacedToken}
      {ts : List PlacedToken}
      {e : Expr}
      (hOpen : first.token.kind = .openParen)
      (h : Derives .sum ts e)
      (hClose : last.token.kind = .closeParen) :
      Derives .primary (first :: ts ++ [last]) e

end Grammar

end ExprCompiler
