import ExprCompiler.Expr.Eval

/-
  When evaluation has a value and how it fails.

  Main declarations:
    * `Expr.eval_unary_eq_ok_iff`
    * `Expr.eval_unary_eq_error_iff`
    * `Expr.eval_binary_eq_ok_iff`
    * `Expr.eval_binary_eq_error_iff`
    * `Expr.eval_error_of_isLegal`
-/

------------------------------------------------------------
-- Operations on Numbers
------------------------------------------------------------

namespace ExprCompiler

namespace UnaryOp

/- A known operation has a result on every number. -/
theorem exists_apply_eq_ok
    {op : UnaryOp}
    (hKnown : op.IsKnown)
    (v : Int32) :
    ∃ result, op.apply v = .ok result := by
  cases op with
  | plus => exact ⟨v, rfl⟩
  | minus => exact ⟨-v, rfl⟩
  | unknown s h => exact absurd hKnown id

end UnaryOp

/- A quotient exists unless the divisor is zero. -/
theorem divide_eq_ok_iff
    {left right result : Int32} :
    divide left right = .ok result ↔
      right ≠ 0 ∧ left / right = result := by
  unfold divide
  split
  · simp [*]
  · simp [*]

namespace BinaryOp

/- A known operation fails on a divisor of zero only. -/
theorem apply_error_of_isKnown
    {op : BinaryOp}
    (hKnown : op.IsKnown)
    {left right : Int32}
    {f : Failure}
    (hError : op.apply left right = .error f) :
    op = .div ∧ right = 0 ∧
      f = ⟨.arithmetic ⟨.div, left, 0⟩, []⟩ := by
  cases op with
  | add => simp [apply] at hError
  | sub => simp [apply] at hError
  | mul => simp [apply] at hError
  | div =>
      by_cases hZero : right = 0
      · subst hZero
        simp only [apply, divide, if_true,
          Except.error.injEq] at hError
        exact ⟨rfl, rfl, hError.symm⟩
      · simp [apply, divide, hZero] at hError
  | unknown s h => exact absurd hKnown id

end BinaryOp

------------------------------------------------------------
-- Sequencing
------------------------------------------------------------

section Sequencing

variable {α β : Type}
variable {first : Except Failure α}
variable {next : α → Except Failure β}

/- Two computations in a row succeed if both do. -/
theorem bind_eq_ok_iff
    {result : β} :
    first >>= next = .ok result ↔
      ∃ a, first = .ok a ∧ next a = .ok result := by
  cases first with
  | error f => simp [bind, Except.bind]
  | ok a => simp [bind, Except.bind]

/- Of two computations in a row the first to fail counts. -/
theorem bind_eq_error_iff
    {f : Failure} :
    first >>= next = .error f ↔
      first = .error f ∨
        ∃ a, first = .ok a ∧ next a = .error f := by
  cases first with
  | error f' => simp [bind, Except.bind]
  | ok a => simp [bind, Except.bind]

end Sequencing

------------------------------------------------------------
-- Evaluation of Applications
------------------------------------------------------------

namespace Expr

/- A unary tree has a value if its operand leads to one. -/
theorem eval_unary_eq_ok_iff
    {op : UnaryOp}
    {x : Expr}
    {v : Int32} :
    (unary op x).eval = .ok v ↔
      ∃ w, x.eval = .ok w ∧ op.apply w = .ok v := by
  rw [eval, bind_eq_ok_iff]

/- A unary tree fails in its operand or at its operation. -/
theorem eval_unary_eq_error_iff
    {op : UnaryOp}
    {x : Expr}
    {f : Failure} :
    (unary op x).eval = .error f ↔
      x.eval = .error f ∨
        ∃ w, x.eval = .ok w ∧ op.apply w = .error f := by
  rw [eval, bind_eq_error_iff]

/- A binary tree has a value if its operands lead to one. -/
theorem eval_binary_eq_ok_iff
    {op : BinaryOp}
    {l r : Expr}
    {v : Int32} :
    (binary op l r).eval = .ok v ↔
      ∃ left, l.eval = .ok left ∧
        ∃ right, r.eval = .ok right ∧
          op.apply left right = .ok v := by
  simp only [eval, bind_eq_ok_iff]

/-
  A binary tree fails in its left operand, else in its right
  operand, else at its operation.
-/
theorem eval_binary_eq_error_iff
    {op : BinaryOp}
    {l r : Expr}
    {f : Failure} :
    (binary op l r).eval = .error f ↔
      l.eval = .error f ∨
        ∃ left, l.eval = .ok left ∧
          (r.eval = .error f ∨
            ∃ right, r.eval = .ok right ∧
              op.apply left right = .error f) := by
  simp only [eval, bind_eq_error_iff]

------------------------------------------------------------
-- Failures of Legal Trees
------------------------------------------------------------

/- A legal tree fails at a division by zero only. -/
theorem eval_error_of_isLegal
    {e : Expr}
    (hLegal : e.IsLegal)
    {f : Failure}
    (hError : e.eval = .error f) :
    ∃ left, f = ⟨.arithmetic ⟨.div, left, 0⟩, []⟩ := by
  induction e with
  | missing => exact absurd hLegal id
  | number value => simp [eval] at hError
  | unary op x ih =>
      rcases hLegal with ⟨hKnown, hOperand⟩
      rcases eval_unary_eq_error_iff.mp hError with
        hInner | ⟨w, hValue, hApply⟩
      · exact ih hOperand hInner
      · rcases op.exists_apply_eq_ok hKnown w with
          ⟨result, hResult⟩
        rw [hResult] at hApply
        cases hApply
  | binary op l r ihLeft ihRight =>
      rcases hLegal with ⟨hKnown, hLeft, hRight⟩
      rcases eval_binary_eq_error_iff.mp hError with
        hInner | ⟨left, hValue, hRest⟩
      · exact ihLeft hLeft hInner
      · rcases hRest with hInner | ⟨right, _, hApply⟩
        · exact ihRight hRight hInner
        · rcases BinaryOp.apply_error_of_isKnown
              hKnown hApply with
            ⟨_, _, hFailure⟩
          exact ⟨left, hFailure⟩

end Expr

end ExprCompiler
