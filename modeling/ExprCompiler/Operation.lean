/-
  The operations of an expression.

  Key definitions include:
    * `UnaryOp`
    * `BinaryOp`

  An operation is named by its symbol. A symbol that names
  no known operation is kept as an unknown operation, with
  the evidence that it is none of the known ones, so symbols
  and operations correspond one to one.
-/

------------------------------------------------------------
-- Unary Operations
------------------------------------------------------------

namespace ExprCompiler

/- An operation on one operand. -/
inductive UnaryOp where
  | plus
  | minus
  | unknown (symbol : String)
      (h : symbol ≠ "+" ∧ symbol ≠ "-")
deriving DecidableEq, Repr

namespace UnaryOp

/- The symbol of an operation. -/
def symbol : UnaryOp → String
| .plus => "+"
| .minus => "-"
| .unknown s _ => s

/- The operation with the given symbol. -/
def ofSymbol
    (s : String) :
    UnaryOp :=
  if hPlus : s = "+" then .plus
  else if hMinus : s = "-" then .minus
  else .unknown s ⟨hPlus, hMinus⟩

/- The operation of a symbol has that symbol. -/
theorem symbol_ofSymbol
    (s : String) :
    (ofSymbol s).symbol = s := by
  unfold ofSymbol
  split
  · simp_all [symbol]
  · split
    · simp_all [symbol]
    · rfl

/- An operation is the operation of its symbol. -/
theorem ofSymbol_symbol
    (op : UnaryOp) :
    ofSymbol op.symbol = op := by
  cases op with
  | plus => rfl
  | minus => rfl
  | unknown s h => simp [ofSymbol, symbol, h]

/- Whether an operation is one of the known ones. -/
def IsKnown : UnaryOp → Prop
| .unknown _ _ => False
| _ => True

instance
    (op : UnaryOp) :
    Decidable op.IsKnown := by
  cases op <;> unfold IsKnown <;> infer_instance

end UnaryOp

------------------------------------------------------------
-- Binary Operations
------------------------------------------------------------

/- An operation on two operands. -/
inductive BinaryOp where
  | add
  | sub
  | mul
  | div
  | unknown (symbol : String)
      (h : symbol ≠ "+" ∧ symbol ≠ "-" ∧
        symbol ≠ "*" ∧ symbol ≠ "/")
deriving DecidableEq, Repr

namespace BinaryOp

/- The symbol of an operation. -/
def symbol : BinaryOp → String
| .add => "+"
| .sub => "-"
| .mul => "*"
| .div => "/"
| .unknown s _ => s

/- The operation with the given symbol. -/
def ofSymbol
    (s : String) :
    BinaryOp :=
  if hAdd : s = "+" then .add
  else if hSub : s = "-" then .sub
  else if hMul : s = "*" then .mul
  else if hDiv : s = "/" then .div
  else .unknown s ⟨hAdd, hSub, hMul, hDiv⟩

/- The operation of a symbol has that symbol. -/
theorem symbol_ofSymbol
    (s : String) :
    (ofSymbol s).symbol = s := by
  unfold ofSymbol
  repeat' split
  all_goals simp_all [symbol]

/- An operation is the operation of its symbol. -/
theorem ofSymbol_symbol
    (op : BinaryOp) :
    ofSymbol op.symbol = op := by
  cases op with
  | add => rfl
  | sub => rfl
  | mul => rfl
  | div => rfl
  | unknown s h => simp [ofSymbol, symbol, h]

/- Whether an operation is one of the known ones. -/
def IsKnown : BinaryOp → Prop
| .unknown _ _ => False
| _ => True

instance
    (op : BinaryOp) :
    Decidable op.IsKnown := by
  cases op <;> unfold IsKnown <;> infer_instance

end BinaryOp

end ExprCompiler
