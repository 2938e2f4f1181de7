import ExprCompiler.Proofs.TreeFaults
import Mathlib.Algebra.Group.Int.Defs
import Mathlib.Algebra.Group.Nat.Defs

/-
  Evaluation is exact as long as nothing overflows.

  Key definitions include:
    * `Fits`
    * `Expr.integer?`
    * `Expr.hasZeroDivisor`
    * `Expr.computed`
    * `Expr.zeroDivision?`

  Main declarations:
    * `UnaryOp.exists_apply_of_fits`
    * `BinaryOp.exists_apply_of_fits`
    * `Expr.evaluatesExactly_of_isLegal`
    * `Expr.eval_exact_of_fits`

  Trees have values in unbounded integers, too. A quotient
  of values that were cut down to 32 bits is not the exact
  quotient cut down. So the two kinds of values are compared
  at every node, in the order of evaluation.
-/

------------------------------------------------------------
-- Operations on Integers
------------------------------------------------------------

namespace ExprCompiler

/- An integer that 32 bits hold with its sign. -/
def Fits
    (x : Int) :
    Prop :=
  -2 ^ 31 ≤ x ∧ x < 2 ^ 31

instance
    (x : Int) :
    Decidable (Fits x) := by
  unfold Fits
  infer_instance

theorem Fits.bmod_eq
    {x : Int}
    (hFits : Fits x) :
    x.bmod (2 ^ 32) = x := by
  unfold Fits at hFits
  apply Int.bmod_eq_of_le
  · omega
  · omega

namespace UnaryOp

/- The result of an operation on an integer. -/
def onInteger? : UnaryOp → Int → Option Int
| .plus, x => some x
| .minus, x => some (-x)
| .unknown _ _, _ => none

theorem exists_onInteger?_of_isKnown
    {op : UnaryOp}
    (hKnown : op.IsKnown)
    (x : Int) :
    ∃ y, op.onInteger? x = some y := by
  cases op with
  | plus => exact ⟨x, rfl⟩
  | minus => exact ⟨-x, rfl⟩
  | unknown s h => exact absurd hKnown id

/- A result that fits is the one in 32-bit arithmetic. -/
theorem exists_apply_of_fits
    {op : UnaryOp}
    {v : Int32}
    {y : Int}
    (hExact : op.onInteger? v.toInt = some y)
    (hFits : Fits y) :
    ∃ w, op.apply v = .ok w ∧ w.toInt = y := by
  cases op with
  | plus => exact ⟨v, rfl, Option.some.inj hExact⟩
  | minus =>
      cases hExact
      exact ⟨_, rfl, by rw [Int32.toInt_neg, hFits.bmod_eq]⟩
  | unknown s h => cases hExact

end UnaryOp

namespace BinaryOp

/-
  The result of an operation on two integers. A quotient is
  truncated toward zero; there is none by zero.
-/
def onIntegers? : BinaryOp → Int → Int → Option Int
| .add, x, y => some (x + y)
| .sub, x, y => some (x - y)
| .mul, x, y => some (x * y)
| .div, x, y => if y = 0 then none else some (x.tdiv y)
| .unknown _ _, _, _ => none

theorem exists_onIntegers?_of_isKnown
    {op : BinaryOp}
    (hKnown : op.IsKnown)
    {x y : Int}
    (hDivisor : op = .div → y ≠ 0) :
    ∃ z, op.onIntegers? x y = some z := by
  cases op with
  | add => exact ⟨x + y, rfl⟩
  | sub => exact ⟨x - y, rfl⟩
  | mul => exact ⟨x * y, rfl⟩
  | div => exact ⟨x.tdiv y, if_neg (hDivisor rfl)⟩
  | unknown s h => exact absurd hKnown id

/- A result that fits is the one in 32-bit arithmetic. -/
theorem exists_apply_of_fits
    {op : BinaryOp}
    {left right : Int32}
    {z : Int}
    (hExact :
      op.onIntegers? left.toInt right.toInt = some z)
    (hFits : Fits z) :
    ∃ w, op.apply left right = .ok w ∧ w.toInt = z := by
  cases op with
  | add =>
      cases hExact
      exact ⟨_, rfl, by rw [Int32.toInt_add, hFits.bmod_eq]⟩
  | sub =>
      cases hExact
      exact ⟨_, rfl, by rw [Int32.toInt_sub, hFits.bmod_eq]⟩
  | mul =>
      cases hExact
      exact ⟨_, rfl, by rw [Int32.toInt_mul, hFits.bmod_eq]⟩
  | div =>
      by_cases hZero : right.toInt = 0
      · simp [onIntegers?, hZero] at hExact
      · simp only [onIntegers?, if_neg hZero,
          Option.some.injEq] at hExact
        have hDivisor : right ≠ 0 := by
          rintro rfl
          exact hZero Int32.toInt_zero
        refine ⟨_, divide_eq_ok_iff.mpr ⟨hDivisor, rfl⟩, ?_⟩
        rw [Int32.toInt_div, hExact, hFits.bmod_eq]
  | unknown s h => cases hExact

end BinaryOp

------------------------------------------------------------
-- Exact Values of Trees
------------------------------------------------------------

namespace Expr

/- The value of a tree in unbounded integers. -/
def integer? : Expr → Option Int
| .missing => none
| .number value => some value.toNat
| .unary op x => do
    op.onInteger? (← x.integer?)
| .binary op l r => do
    let left ← l.integer?
    let right ← r.integer?
    op.onIntegers? left right

/- Whether a node divides by what is exactly zero. -/
def hasZeroDivisor : Expr → Bool
| .binary .div _ r => r.integer? = some 0
| _ => false

/- The nodes that are evaluated before a zero divisor. -/
def computed
    (nodes : List Expr) :
    List Expr :=
  nodes.takeWhile fun n => !n.hasZeroDivisor

/- The first division by zero in the order of evaluation. -/
def zeroDivision?
    (e : Expr) :
    Option Expr :=
  e.postorder.find? hasZeroDivisor

/- Nothing overflows before a zero divisor is met. -/
def NodesFit
    (nodes : List Expr) :
    Prop :=
  ∀ n ∈ computed nodes, ∀ x, n.integer? = some x → Fits x

section Walk

variable {nodes more : List Expr}

theorem NodesFit.of_append
    (hFit : NodesFit (nodes ++ more)) :
    NodesFit nodes := by
  intro n hMem
  apply hFit
  rw [computed, List.takeWhile_append]
  split
  · exact List.mem_append_left _
      ((List.takeWhile_prefix _).subset hMem)
  · exact hMem

/- Where no zero divisor is met, the walk goes on. -/
theorem NodesFit.behind
    (hFit : NodesFit (nodes ++ more))
    (hNone : nodes.find? hasZeroDivisor = none) :
    NodesFit more := by
  intro n hMem
  apply hFit
  rw [computed, List.takeWhile_append_of_pos]
  · exact List.mem_append_right _ hMem
  · simpa using List.find?_eq_none.mp hNone

theorem NodesFit.fits
    {n : Expr}
    {x : Int}
    (hFit : NodesFit [n])
    (hDivisor : n.hasZeroDivisor = false)
    (hExact : n.integer? = some x) :
    Fits x :=
  hFit n (by simp [computed, hDivisor]) x hExact

end Walk

theorem zeroDivision?_unary
    (op : UnaryOp)
    (x : Expr) :
    (unary op x).zeroDivision? = x.zeroDivision? := by
  simp [zeroDivision?, postorder, hasZeroDivisor]

theorem zeroDivision?_binary
    (op : BinaryOp)
    (l r : Expr) :
    (binary op l r).zeroDivision? =
      l.zeroDivision?.or (r.zeroDivision?.or
        ([binary op l r].find? hasZeroDivisor)) := by
  simp [zeroDivision?, postorder]

------------------------------------------------------------
-- Exact Evaluation
------------------------------------------------------------

/-
  Evaluation fails at a division with the exact values of
  its operands.
-/
def FailsAt
    (e n : Expr) :
    Prop :=
  ∃ l r left right,
    n = .binary .div l r ∧
      l.integer? = some left.toInt ∧
      r.integer? = some right.toInt ∧
      e.eval = .error ⟨.arithmetic ⟨.div, left, right⟩, []⟩

/-
  Evaluation gives the exact value, or it fails at the first
  division by zero.
-/
inductive EvaluatesExactly
    (e : Expr) :
    Prop
  | value
      {v : Int32}
      (hNone : e.zeroDivision? = none)
      (hEval : e.eval = .ok v)
      (hInteger : e.integer? = some v.toInt) :
      EvaluatesExactly e
  | failure
      {n : Expr}
      (hSome : e.zeroDivision? = some n)
      (hFails : e.FailsAt n) :
      EvaluatesExactly e

theorem FailsAt.of_eval
    {e e' n : Expr}
    (hFails : e.FailsAt n)
    (hEval : ∀ f, e.eval = .error f → e'.eval = .error f) :
    e'.FailsAt n := by
  rcases hFails with
    ⟨l, r, left, right, hNode, hLeft, hRight, hError⟩
  exact ⟨l, r, left, right, hNode, hLeft, hRight,
    hEval _ hError⟩

theorem evaluatesExactly_number
    {value : UInt32}
    (hFit : NodesFit (number value).postorder) :
    (number value).EvaluatesExactly := by
  have hFits : Fits value.toNat := hFit.fits rfl rfl
  have hValue : value.toInt32.toInt = value.toNat :=
    (BitVec.toInt_eq_toNat_bmod value.toBitVec).trans
      hFits.bmod_eq
  exact .value rfl rfl (by rw [hValue, integer?])

theorem EvaluatesExactly.unary
    {op : UnaryOp}
    {x : Expr}
    (hKnown : op.IsKnown)
    (hOperand : x.EvaluatesExactly)
    (hFit : NodesFit (unary op x).postorder) :
    (unary op x).EvaluatesExactly := by
  have hOrder := zeroDivision?_unary op x
  cases hOperand with
  | failure hSome hFails =>
      refine .failure (hOrder.trans hSome) ?_
      refine hFails.of_eval fun f hError => ?_
      exact eval_unary_eq_error_iff.mpr (.inl hError)
  | @value v hNone hEval hInteger =>
      rcases op.exists_onInteger?_of_isKnown hKnown v.toInt
        with ⟨y, hExact⟩
      have hWhole :
          (Expr.unary op x).integer? = some y := by
        simp [integer?, hInteger, hExact]
      have hFits : Fits y :=
        (hFit.behind hNone).fits rfl hWhole
      rcases op.exists_apply_of_fits hExact hFits with
        ⟨w, hApply, rfl⟩
      exact .value (hOrder.trans hNone)
        (eval_unary_eq_ok_iff.mpr ⟨v, hEval, hApply⟩) hWhole

/- Both operands of an operation have exact values. -/
theorem evaluatesExactly_of_operands
    {op : BinaryOp}
    {l r : Expr}
    {left right : Int32}
    (hKnown : op.IsKnown)
    (hLeft : l.eval = .ok left)
    (hRight : r.eval = .ok right)
    (hLeftExact : l.integer? = some left.toInt)
    (hRightExact : r.integer? = some right.toInt)
    (hOrder :
      (binary op l r).zeroDivision? =
        [binary op l r].find? hasZeroDivisor)
    (hFit : NodesFit [binary op l r]) :
    (binary op l r).EvaluatesExactly := by
  by_cases hDivision : op = .div ∧ right.toInt = 0
  · rcases hDivision with ⟨rfl, hZero⟩
    have hNode :
        (binary .div l r).hasZeroDivisor = true := by
      simp [hasZeroDivisor, hRightExact, hZero]
    have hDivisor : right = 0 := Int32.toInt_inj.mp hZero
    refine .failure (n := binary .div l r) ?_ ?_
    · simp [hOrder, hNode]
    · refine ⟨l, r, left, right, rfl, hLeftExact,
        hRightExact, ?_⟩
      refine eval_binary_eq_error_iff.mpr (.inr
        ⟨left, hLeft, .inr ⟨right, hRight, ?_⟩⟩)
      exact if_pos hDivisor
  · have hNode :
        (binary op l r).hasZeroDivisor = false := by
      cases op with
      | div =>
          simpa [hasZeroDivisor, hRightExact]
            using hDivision
      | _ => rfl
    rcases op.exists_onIntegers?_of_isKnown hKnown
        (x := left.toInt) (not_and.mp hDivision) with
      ⟨z, hExact⟩
    have hWhole : (binary op l r).integer? = some z := by
      simp [integer?, hLeftExact, hRightExact, hExact]
    rcases op.exists_apply_of_fits hExact
        (hFit.fits hNode hWhole) with
      ⟨w, hApply, rfl⟩
    refine .value ?_ ?_ hWhole
    · simp [hOrder, hNode]
    · exact eval_binary_eq_ok_iff.mpr
        ⟨left, hLeft, right, hRight, hApply⟩

theorem EvaluatesExactly.binary
    {op : BinaryOp}
    {l r : Expr}
    (hKnown : op.IsKnown)
    (hLeft : l.EvaluatesExactly)
    (hRight : NodesFit r.postorder → r.EvaluatesExactly)
    (hFit : NodesFit (binary op l r).postorder) :
    (binary op l r).EvaluatesExactly := by
  have hOrder := zeroDivision?_binary op l r
  cases hLeft with
  | failure hSome hFails =>
      rw [hSome, Option.some_or] at hOrder
      refine .failure hOrder ?_
      refine hFails.of_eval fun f hError => ?_
      exact eval_binary_eq_error_iff.mpr (.inl hError)
  | @value left hNone hEval hInteger =>
      rw [hNone, Option.none_or] at hOrder
      have hBehind :
          NodesFit (r.postorder ++ [.binary op l r]) :=
        hFit.behind hNone
      cases hRight hBehind.of_append with
      | failure hSome hFails =>
          rw [hSome, Option.some_or] at hOrder
          refine .failure hOrder ?_
          refine hFails.of_eval fun f hError => ?_
          exact eval_binary_eq_error_iff.mpr
            (.inr ⟨left, hEval, .inl hError⟩)
      | value hNone' hEval' hInteger' =>
          rw [hNone', Option.none_or] at hOrder
          exact evaluatesExactly_of_operands hKnown hEval
            hEval' hInteger hInteger' hOrder
            (hBehind.behind hNone')

theorem evaluatesExactly_of_isLegal
    {e : Expr}
    (hLegal : e.IsLegal)
    (hFit : NodesFit e.postorder) :
    e.EvaluatesExactly := by
  induction e with
  | missing => exact absurd hLegal id
  | number value => exact evaluatesExactly_number hFit
  | unary op x ih =>
      exact .unary hLegal.1
        (ih hLegal.2 hFit.of_append) hFit
  | binary op l r ihLeft ihRight =>
      exact .binary hLegal.1
        (ihLeft hLegal.2.1 hFit.of_append)
        (ihRight hLegal.2.2) hFit

/-
  Let the exact values of all nodes that are evaluated
  before a zero divisor fit into 32 bits. If no divisor is
  zero, evaluation gives the exact value of the tree. Else
  it fails with the exact values of the operands of the
  first division by zero, where nodes come behind their
  operands and from left to right.
-/
theorem eval_exact_of_fits
    {e : Expr}
    (hLegal : e.IsLegal)
    (hFits :
      ∀ n ∈ computed e.postorder, ∀ x, n.integer? = some x →
        -2 ^ 31 ≤ x ∧ x < 2 ^ 31) :
    ((∀ n ∈ e.postorder, n.hasZeroDivisor = false) →
        ∃ v, e.eval = .ok v ∧ e.integer? = some v.toInt) ∧
      ∀ before n after,
        e.postorder = before ++ n :: after →
        (∀ m ∈ before, m.hasZeroDivisor = false) →
        n.hasZeroDivisor = true →
          ∃ l r left right,
            n = .binary .div l r ∧
              l.integer? = some left.toInt ∧
              r.integer? = some right.toInt ∧
              e.eval = .error
                ⟨.arithmetic ⟨.div, left, right⟩, []⟩ := by
  have hExactly := evaluatesExactly_of_isLegal hLegal hFits
  constructor
  · intro hNone
    cases hExactly with
    | value _ hEval hInteger => exact ⟨_, hEval, hInteger⟩
    | failure hSome _ =>
        have hMem := List.mem_of_find?_eq_some hSome
        have hZero := List.find?_some hSome
        rw [hNone _ hMem] at hZero
        cases hZero
  · intro before n after hSplit hBefore hNode
    have hFirst : e.zeroDivision? = some n := by
      refine List.find?_eq_some_iff_append.mpr
        ⟨hNode, before, after, hSplit, ?_⟩
      simpa using hBefore
    cases hExactly with
    | value hNone _ _ =>
        rw [hNone] at hFirst
        cases hFirst
    | failure hSome hFails =>
        rw [hFirst] at hSome
        cases hSome
        exact hFails

/-
  The quotient of -7 and 2 is -3. Dividing it by zero ends
  the evaluation, so the literal behind that does not have
  to fit.
-/
theorem eval_exact_before_wide_literal :
    let quotient : Expr :=
      .binary .div (.unary .minus (.number 7)) (.number 2)
    let zero : Expr := .binary .sub (.number 5) (.number 5)
    let wide : Expr := .number 4294967295
    let e : Expr :=
      .binary .add (.binary .div quotient zero) wide
    e.IsLegal ∧
      (∀ n ∈ computed e.postorder,
        ∀ x, n.integer? = some x →
          -2 ^ 31 ≤ x ∧ x < 2 ^ 31) ∧
      wide.integer? = some (2 ^ 32 - 1) ∧
      quotient.integer? = some (-3) ∧
      quotient.eval = .ok (-3) ∧
      e.eval = .error ⟨.arithmetic ⟨.div, -3, 0⟩, []⟩ := by
  intro quotient zero wide e
  have hLegal : e.IsLegal := by
    simp [e, quotient, zero, wide, IsLegal, UnaryOp.IsKnown,
      BinaryOp.IsKnown]
  have hNodes :
      computed e.postorder =
        quotient.postorder ++ zero.postorder := by
    decide
  have hFits :
      ∀ n ∈ computed e.postorder, ∀ x, n.integer? = some x →
        -2 ^ 31 ≤ x ∧ x < 2 ^ 31 := by
    intro n hMem x hExact
    rw [hNodes] at hMem
    simp only [quotient, zero, postorder, List.cons_append,
      List.nil_append, List.mem_cons, List.not_mem_nil,
      or_false] at hMem
    rcases hMem with
      rfl | rfl | rfl | rfl | rfl | rfl | rfl
    all_goals cases hExact
    all_goals decide
  have hQuotient : quotient.integer? = some (-3) := by
    decide
  have hZero : zero.integer? = some 0 := by
    decide
  rcases (eval_exact_of_fits hLegal.2.1.2.1
      (NodesFit.of_append (NodesFit.of_append hFits))).1
      (by decide) with
    ⟨v, hValue, hExact⟩
  rcases (eval_exact_of_fits hLegal hFits).2
      (computed e.postorder) (.binary .div quotient zero)
      [wide, e] (by decide) (by decide) (by decide) with
    ⟨l, r, left, right, hNode, hLeft, hRight, hEval⟩
  cases hNode
  rw [hQuotient, Option.some.injEq] at hExact hLeft
  rw [hZero, Option.some.injEq] at hRight
  have hResult : (-3 : Int32) = v :=
    Int32.toInt_inj.mp hExact
  have hDividend : (-3 : Int32) = left :=
    Int32.toInt_inj.mp hLeft
  have hDivisor : (0 : Int32) = right :=
    Int32.toInt_inj.mp hRight
  rw [← hResult] at hValue
  rw [← hDividend, ← hDivisor] at hEval
  exact ⟨hLegal, hFits, by decide, hQuotient, hValue, hEval⟩

end Expr

end ExprCompiler
