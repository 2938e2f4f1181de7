import ExprCompiler.Proofs.Execution

/-
  The program of an expression computes its value.

  Main declarations:
    * `Expr.exec_code_of_eval_eq_ok`
    * `Expr.exec_code_of_eval_eq_error`
    * `Expr.run_code_iff_eval`

  On any stack, the program of an expression adds the value
  of the expression to the stack. If the expression has no
  value, the program fails in the same way at a division.
-/

------------------------------------------------------------
-- Places of Divisions
------------------------------------------------------------

namespace ExprCompiler

/- How the place of a division is worded. -/
theorem Context.message_division
    (i : Nat) :
    (Context.instruction i (.ofOpcode .div)).message =
      "instruction " ++ toString i ++ " (div)" := by
  calc
    (Context.instruction i (.ofOpcode .div)).message =
        "instruction " ++ toString i ++ " (" ++ "div" ++
          ")" := rfl
    _ = "instruction " ++ toString i ++
          (" (" ++ ("div" ++ ")")) := by
      rw [String.append_assoc, String.append_assoc]
    _ = "instruction " ++ toString i ++ " (div)" := rfl

------------------------------------------------------------
-- Execution on Any Stack
------------------------------------------------------------

namespace Expr

/- The program of a tree with a value puts it on the stack. -/
theorem exec_code_of_eval_eq_ok
    {e : Expr}
    {p : Program}
    (hCode : e.code = .ok p)
    {v : Int32}
    (hEval : e.eval = .ok v)
    (index : Nat)
    (m : Machine) :
    Machine.exec index p m = (.ok (), m.push v) := by
  induction e generalizing p v index m with
  | missing => exact absurd hCode (code_missing_ne_ok p)
  | number value =>
      rw [code_number] at hCode
      cases hCode
      cases hEval
      exact Machine.exec_singleton_of_ok rfl
  | unary op x ih =>
      rcases code_unary_eq_ok_iff.mp hCode with
        ⟨opcode, c, hOpcode, hOperand, rfl⟩
      rcases eval_unary_eq_ok_iff.mp hEval with
        ⟨w, hValue, hApply⟩
      rw [Machine.exec_append_of_ok
        (ih hOperand hValue index m)]
      apply Machine.exec_singleton_of_ok
      rw [Machine.step_of_unary hOpcode,
        Machine.applyUnary_push, hApply]
  | binary op l r ihLeft ihRight =>
      rcases code_binary_eq_ok_iff.mp hCode with
        ⟨opcode, cl, cr, hOpcode, hLeft, hRight, rfl⟩
      rcases eval_binary_eq_ok_iff.mp hEval with
        ⟨left, hLeftValue, right, hRightValue, hApply⟩
      rw [List.append_assoc,
        Machine.exec_append_of_ok
          (ihLeft hLeft hLeftValue index m),
        Machine.exec_append_of_ok
          (ihRight hRight hRightValue _ (m.push left))]
      apply Machine.exec_singleton_of_ok
      rw [Machine.step_of_binary hOpcode,
        Machine.applyBinary_push_push, hApply]

/-
  The program of a legal tree without a value fails with the
  tree's failure at one of the program's divisions.
-/
theorem exec_code_of_eval_eq_error
    {e : Expr}
    {p : Program}
    (hCode : e.code = .ok p)
    {f : Failure}
    (hEval : e.eval = .error f)
    (index : Nat)
    (m : Machine) :
    ∃ before after m',
      p = before ++ .ofOpcode .div :: after ∧
        Machine.exec index p m =
          (.error (f.within
            (.instruction (index + before.length)
              (.ofOpcode .div))), m') := by
  induction e generalizing p index m with
  | missing => exact absurd hCode (code_missing_ne_ok p)
  | number value => cases hEval
  | unary op x ih =>
      rcases code_unary_eq_ok_iff.mp hCode with
        ⟨opcode, c, hOpcode, hOperand, rfl⟩
      rcases eval_unary_eq_error_iff.mp hEval with
        hInner | ⟨w, _, hApply⟩
      · rcases ih hOperand hInner index m with
          ⟨before, after, m', rfl, hExec⟩
        refine ⟨before, after ++ [.ofOpcode opcode], m',
          by simp, ?_⟩
        exact Machine.exec_append_of_error hExec
      · have hKnown :=
          op.isKnown_of_opcode?_eq_some hOpcode
        rcases UnaryOp.exists_apply_eq_ok hKnown w with
          ⟨result, hResult⟩
        rw [hResult] at hApply
        cases hApply
  | binary op l r ihLeft ihRight =>
      rcases code_binary_eq_ok_iff.mp hCode with
        ⟨opcode, cl, cr, hOpcode, hLeft, hRight, rfl⟩
      rw [List.append_assoc]
      rcases eval_binary_eq_error_iff.mp hEval with
        hInner | ⟨left, hLeftValue, hRest⟩
      · rcases ihLeft hLeft hInner index m with
          ⟨before, after, m', rfl, hExec⟩
        refine ⟨before,
          after ++ (cr ++ [.ofOpcode opcode]), m',
          by simp, ?_⟩
        exact Machine.exec_append_of_error hExec
      · rw [Machine.exec_append_of_ok
          (exec_code_of_eval_eq_ok hLeft hLeftValue
            index m)]
        rcases hRest with
          hInner | ⟨right, hRightValue, hApply⟩
        · rcases ihRight hRight hInner
              (index + cl.length) (m.push left) with
            ⟨before, after, m', rfl, hExec⟩
          refine ⟨cl ++ before,
            after ++ [.ofOpcode opcode], m', by simp, ?_⟩
          rw [List.length_append, ← Nat.add_assoc]
          exact Machine.exec_append_of_error hExec
        · -- Both operands are there, so the operation is a
          -- division, and it stands at the program's end.
          have hKnown :=
            op.isKnown_of_opcode?_eq_some hOpcode
          rcases BinaryOp.apply_error_of_isKnown
              hKnown hApply with
            ⟨rfl, _, _⟩
          have hDivision : opcode = .div :=
            (Option.some.inj hOpcode).symm
          subst hDivision
          refine ⟨cl ++ cr, [], m, by simp, ?_⟩
          rw [Machine.exec_append_of_ok
              (exec_code_of_eval_eq_ok hRight hRightValue
                _ (m.push left)),
            List.length_append, ← Nat.add_assoc]
          apply Machine.exec_singleton_of_error
          rw [Machine.step_of_binary hOpcode,
            Machine.applyBinary_push_push, hApply]

------------------------------------------------------------
-- Runs of Whole Programs
------------------------------------------------------------

/- The program of a tree with a value returns the value. -/
theorem run_code_of_eval_eq_ok
    {e : Expr}
    {p : Program}
    (hCode : e.code = .ok p)
    {v : Int32}
    (hEval : e.eval = .ok v) :
    p.run = .ok v :=
  Program.run_eq_ok_iff.mpr
    (exec_code_of_eval_eq_ok hCode hEval 0 ⟨[]⟩)

/- The program of a tree without a value fails like it. -/
theorem run_code_of_eval_eq_error
    {e : Expr}
    {p : Program}
    (hCode : e.code = .ok p)
    {f : Failure}
    (hEval : e.eval = .error f) :
    ∃ i,
      p[i]? = some (.ofOpcode .div) ∧
        p.run = .error
          (f.within (.instruction i (.ofOpcode .div))) := by
  rcases exec_code_of_eval_eq_error hCode hEval 0 ⟨[]⟩ with
    ⟨before, after, m', rfl, hExec⟩
  refine ⟨before.length, by simp, ?_⟩
  rw [Nat.zero_add] at hExec
  exact Program.run_of_exec_eq_error hExec

/-
  A generated program returns a value if and only if its
  tree has that value, and it fails at a division by zero if
  and only if its tree does, with the same operands. It has
  no other failure: each one names the place of a division.
-/
theorem run_code_iff_eval
    {e : Expr}
    {p : Program}
    (hCode : e.code = .ok p) :
    (∀ v, p.run = .ok v ↔ e.eval = .ok v) ∧
      (∀ a,
        (∃ f, p.run = .error f ∧
            f.cause = .arithmetic a) ↔
          ∃ f, e.eval = .error f ∧
            f.cause = .arithmetic a) ∧
      (∀ f, p.run = .error f →
        (∃ a i,
          f = ⟨.arithmetic a,
              [.instruction i (.ofOpcode .div)]⟩ ∧
            f.contexts.map Context.message =
              ["instruction " ++ toString i ++ " (div)"] ∧
            p[i]? = some (.ofOpcode .div)) ∧
          f.cause ≠ .stackUnderflow ∧
          f.cause ≠ .unbalancedStack ∧
          f.cause ≠ .unknownOp) := by
  cases hEval : e.eval with
  | ok v =>
      have hRun := run_code_of_eval_eq_ok hCode hEval
      rw [hRun]
      simp
  | error f =>
      rcases eval_error_of_isLegal
          (isLegal_of_code_eq_ok hCode) hEval with
        ⟨left, rfl⟩
      rcases run_code_of_eval_eq_error hCode hEval with
        ⟨i, hDivision, hRun⟩
      rw [hRun]
      refine ⟨by simp, by simp [Failure.within], ?_⟩
      intro f hFailure
      cases hFailure
      refine ⟨⟨_, i, rfl, ?_, hDivision⟩, ?_⟩
      · simp [Failure.within, Context.message_division]
      · simp [Failure.within]

/- The program of `8 + 7 / (3 - 3)` has no value. -/
theorem run_code_of_zero_difference :
    let e : Expr :=
      .binary .add (.number 8)
        (.binary .div (.number 7)
          (.binary .sub (.number 3) (.number 3)))
    let p : Program :=
      [.ofNumber 8, .ofNumber 7, .ofNumber 3, .ofNumber 3,
        .ofOpcode .sub, .ofOpcode .div, .ofOpcode .add]
    e.code = .ok p ∧
      (∃ f, p.run = .error f ∧
        f.cause = .arithmetic ⟨.div, 7, 0⟩) ∧
      ∀ v, p.run ≠ .ok v := by
  intro e p
  have hCode : e.code = .ok p := rfl
  have hEval :
      e.eval = .error ⟨.arithmetic ⟨.div, 7, 0⟩, []⟩ := rfl
  rcases run_code_iff_eval hCode with
    ⟨hValue, hArithmetic, _⟩
  refine ⟨hCode, (hArithmetic _).mpr ⟨_, hEval, rfl⟩, ?_⟩
  intro v hRun
  have hOther := (hValue v).mp hRun
  rw [hEval] at hOther
  cases hOther

end Expr

end ExprCompiler
