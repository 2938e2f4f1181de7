import ExprCompiler.Proofs.Code
import ExprCompiler.Proofs.Evaluation
import ExprCompiler.Program.Machine

/-
  How programs are carried out piece by piece.

  Main declarations:
    * `Machine.exec_append_of_ok`
    * `Machine.exec_append_of_error`
    * `Machine.step_of_unary`
    * `Machine.step_of_binary`
    * `Machine.step_ok_cases`
    * `Machine.step_error_cases`
    * `Program.run_eq_ok_iff`
    * `Program.run_of_exec_eq_error`
    * `Program.run_error_cases`
-/

------------------------------------------------------------
-- Roles of Opcodes
------------------------------------------------------------

namespace ExprCompiler

/- An opcode pushes, stands for an operation or is unknown. -/
theorem Opcode.role_cases
    (opcode : Opcode) :
    opcode = .push ∨
      (∃ op, UnaryOp.opcode? op = some opcode) ∨
      (∃ op, BinaryOp.opcode? op = some opcode) ∨
      ∃ code h, opcode = .unknown code h := by
  cases opcode with
  | push => exact .inl rfl
  | neg => exact .inr (.inl ⟨.minus, rfl⟩)
  | pos => exact .inr (.inl ⟨.plus, rfl⟩)
  | add => exact .inr (.inr (.inl ⟨.add, rfl⟩))
  | sub => exact .inr (.inr (.inl ⟨.sub, rfl⟩))
  | mul => exact .inr (.inr (.inl ⟨.mul, rfl⟩))
  | div => exact .inr (.inr (.inl ⟨.div, rfl⟩))
  | unknown code h => exact .inr (.inr (.inr ⟨code, h, rfl⟩))

------------------------------------------------------------
-- Programs in a Row
------------------------------------------------------------

namespace Machine

/- Behind a program that is carried out comes the next. -/
theorem exec_append_of_ok
    {index : Nat}
    {p q : Program}
    {m m' : Machine}
    (hExec : exec index p m = (.ok (), m')) :
    exec index (p ++ q) m =
      exec (index + p.length) q m' := by
  induction p generalizing index m with
  | nil =>
      simp only [exec, Prod.mk.injEq, true_and] at hExec
      subst hExec
      rfl
  | cons i rest ih =>
      simp only [List.cons_append, exec] at hExec ⊢
      rcases hStep : m.step i with ⟨outcome, next⟩
      cases outcome with
      | error f => simp [hStep] at hExec
      | ok u =>
          simp only [hStep] at hExec ⊢
          rw [ih hExec, List.length_cons]
          congr 1
          omega

/- A program that fails is where execution ends. -/
theorem exec_append_of_error
    {index : Nat}
    {p q : Program}
    {m m' : Machine}
    {f : Failure}
    (hExec : exec index p m = (.error f, m')) :
    exec index (p ++ q) m = (.error f, m') := by
  induction p generalizing index m with
  | nil => simp [exec] at hExec
  | cons i rest ih =>
      simp only [List.cons_append, exec] at hExec ⊢
      rcases hStep : m.step i with ⟨outcome, next⟩
      cases outcome with
      | error f' => simpa [hStep] using hExec
      | ok u =>
          simp only [hStep] at hExec ⊢
          exact ih hExec

/- A program of one instruction. -/
theorem exec_singleton_of_ok
    {index : Nat}
    {i : Instruction}
    {m m' : Machine}
    (hStep : m.step i = (.ok (), m')) :
    exec index [i] m = (.ok (), m') := by
  simp [exec, hStep]

theorem exec_singleton_of_error
    {index : Nat}
    {i : Instruction}
    {m m' : Machine}
    {f : Failure}
    (hStep : m.step i = (.error f, m')) :
    exec index [i] m =
      (.error (f.within (.instruction index i)), m') := by
  simp [exec, hStep]

------------------------------------------------------------
-- Instructions of Operations
------------------------------------------------------------

/- An instruction of a unary operation applies it. -/
theorem step_of_unary
    {op : UnaryOp}
    {i : Instruction}
    (hOpcode : op.opcode? = some i.opcode)
    (m : Machine) :
    m.step i = m.applyUnary op := by
  unfold step
  cases op with
  | unknown s h => cases hOpcode
  | _ => rw [← Option.some.inj hOpcode]

/- An instruction of a binary operation applies it. -/
theorem step_of_binary
    {op : BinaryOp}
    {i : Instruction}
    (hOpcode : op.opcode? = some i.opcode)
    (m : Machine) :
    m.step i = m.applyBinary op := by
  unfold step
  cases op with
  | unknown s h => cases hOpcode
  | _ => rw [← Option.some.inj hOpcode]

/- A unary operation replaces the number on top. -/
theorem applyUnary_push
    (op : UnaryOp)
    (v : Int32)
    (m : Machine) :
    (m.push v).applyUnary op =
      match op.apply v with
      | .error f => (.error f, m)
      | .ok result => (.ok (), m.push result) := rfl

/-
  A binary operation replaces the two numbers on top, the
  second of which is its left operand.
-/
theorem applyBinary_push_push
    (op : BinaryOp)
    (left right : Int32)
    (m : Machine) :
    ((m.push left).push right).applyBinary op =
      match op.apply left right with
      | .error f => (.error f, m)
      | .ok result => (.ok (), m.push result) := rfl

------------------------------------------------------------
-- What a Step Can Do
------------------------------------------------------------

/- How a unary operation succeeds. -/
theorem applyUnary_ok_cases
    {op : UnaryOp}
    {m m' : Machine}
    (hApply : m.applyUnary op = (.ok (), m')) :
    ∃ v rest result,
      m.stack = v :: rest ∧ op.apply v = .ok result ∧
        m'.stack = result :: rest := by
  rcases m with ⟨_ | ⟨v, rest⟩⟩
  · cases hApply
  · simp only [applyUnary, pop] at hApply
    cases hResult : op.apply v with
    | error f =>
        rw [hResult] at hApply
        cases hApply
    | ok result =>
        rw [hResult] at hApply
        cases hApply
        exact ⟨v, rest, result, rfl, hResult, rfl⟩

/- How a unary operation fails. -/
theorem applyUnary_error_cases
    {op : UnaryOp}
    {m m' : Machine}
    {f : Failure}
    (hApply : m.applyUnary op = (.error f, m')) :
    f = ⟨.stackUnderflow, []⟩ ∨
      ∃ v rest, m.stack = v :: rest ∧
        op.apply v = .error f := by
  rcases m with ⟨_ | ⟨v, rest⟩⟩
  · cases hApply
    exact .inl rfl
  · simp only [applyUnary, pop] at hApply
    cases hResult : op.apply v with
    | error f' =>
        rw [hResult] at hApply
        cases hApply
        exact .inr ⟨v, rest, rfl, hResult⟩
    | ok result =>
        rw [hResult] at hApply
        cases hApply

/- How a binary operation succeeds. -/
theorem applyBinary_ok_cases
    {op : BinaryOp}
    {m m' : Machine}
    (hApply : m.applyBinary op = (.ok (), m')) :
    ∃ left right rest result,
      m.stack = right :: left :: rest ∧
        op.apply left right = .ok result ∧
        m'.stack = result :: rest := by
  rcases m with ⟨_ | ⟨right, _ | ⟨left, rest⟩⟩⟩
  · cases hApply
  · cases hApply
  · simp only [applyBinary, pop] at hApply
    cases hResult : op.apply left right with
    | error f =>
        rw [hResult] at hApply
        cases hApply
    | ok result =>
        rw [hResult] at hApply
        cases hApply
        exact ⟨left, right, rest, result, rfl, hResult, rfl⟩

/- How a binary operation fails. -/
theorem applyBinary_error_cases
    {op : BinaryOp}
    {m m' : Machine}
    {f : Failure}
    (hApply : m.applyBinary op = (.error f, m')) :
    f = ⟨.stackUnderflow, []⟩ ∨
      ∃ left right rest,
        m.stack = right :: left :: rest ∧
          op.apply left right = .error f := by
  rcases m with ⟨_ | ⟨right, _ | ⟨left, rest⟩⟩⟩
  · cases hApply
    exact .inl rfl
  · cases hApply
    exact .inl rfl
  · simp only [applyBinary, pop] at hApply
    cases hResult : op.apply left right with
    | error f' =>
        rw [hResult] at hApply
        cases hApply
        exact .inr ⟨left, right, rest, rfl, hResult⟩
    | ok result =>
        rw [hResult] at hApply
        cases hApply

/-
  An instruction that is carried out pushes its number or
  replaces its operands by the result of its operation.
-/
theorem step_ok_cases
    {i : Instruction}
    {m m' : Machine}
    (hStep : m.step i = (.ok (), m')) :
    (i.opcode = .push ∧
        m'.stack = i.value.toInt32 :: m.stack) ∨
      (∃ op v rest result,
        UnaryOp.opcode? op = some i.opcode ∧
          m.stack = v :: rest ∧
          op.apply v = .ok result ∧
          m'.stack = result :: rest) ∨
      (∃ op left right rest result,
        BinaryOp.opcode? op = some i.opcode ∧
          m.stack = right :: left :: rest ∧
          op.apply left right = .ok result ∧
          m'.stack = result :: rest) := by
  rcases i.opcode.role_cases with
    hPush | ⟨op, hOp⟩ | ⟨op, hOp⟩ | ⟨code, h, hUnknown⟩
  · rw [step, hPush] at hStep
    cases hStep
    exact .inl ⟨hPush, rfl⟩
  · rw [step_of_unary hOp] at hStep
    rcases applyUnary_ok_cases hStep with
      ⟨v, rest, result, hCase⟩
    exact .inr (.inl ⟨op, v, rest, result, hOp, hCase⟩)
  · rw [step_of_binary hOp] at hStep
    rcases applyBinary_ok_cases hStep with
      ⟨left, right, rest, result, hCase⟩
    exact .inr (.inr
      ⟨op, left, right, rest, result, hOp, hCase⟩)
  · rw [step, hUnknown] at hStep
    cases hStep

/-
  An instruction fails because its opcode is unknown, an
  operand is missing, or it divides by zero.
-/
theorem step_error_cases
    {i : Instruction}
    {m m' : Machine}
    {f : Failure}
    (hStep : m.step i = (.error f, m')) :
    (∃ code h, i.opcode = .unknown code h ∧
        f = .unknownOp (.opcode code)) ∨
      f = ⟨.stackUnderflow, []⟩ ∨
      (∃ left rest,
        i.opcode = .div ∧
          m.stack = 0 :: left :: rest ∧
          f = ⟨.arithmetic ⟨.div, left, 0⟩, []⟩) := by
  rcases i.opcode.role_cases with
    hPush | ⟨op, hOp⟩ | ⟨op, hOp⟩ | ⟨code, h, hUnknown⟩
  · rw [step, hPush] at hStep
    cases hStep
  · rw [step_of_unary hOp] at hStep
    rcases applyUnary_error_cases hStep with
      hMissing | ⟨v, rest, _, hApply⟩
    · exact .inr (.inl hMissing)
    · rcases UnaryOp.exists_apply_eq_ok
          (op.isKnown_of_opcode?_eq_some hOp) v with
        ⟨result, hResult⟩
      rw [hResult] at hApply
      cases hApply
  · rw [step_of_binary hOp] at hStep
    rcases applyBinary_error_cases hStep with
      hMissing | ⟨left, right, rest, hStack, hApply⟩
    · exact .inr (.inl hMissing)
    · rcases BinaryOp.apply_error_of_isKnown
          (op.isKnown_of_opcode?_eq_some hOp) hApply with
        ⟨rfl, rfl, hFailure⟩
      exact .inr (.inr ⟨left, rest,
        (Option.some.inj hOp).symm, hStack, hFailure⟩)
  · rw [step, hUnknown] at hStep
    cases hStep
    exact .inl ⟨code, h, hUnknown, rfl⟩

/- Arithmetic fails where a division finds a zero on top. -/
theorem step_arithmetic_cases
    {i : Instruction}
    {m m' : Machine}
    {f : Failure}
    {a : ArithmeticError}
    (hStep : m.step i = (.error f, m'))
    (hCause : f.cause = .arithmetic a) :
    i.opcode = .div ∧
      ∃ left rest, m.stack = 0 :: left :: rest := by
  rcases step_error_cases hStep with
    ⟨code, h, _, rfl⟩ | rfl | ⟨left, rest, hDiv, hStack, _⟩
  · cases hCause
  · cases hCause
  · exact ⟨hDiv, left, rest, hStack⟩

end Machine

------------------------------------------------------------
-- Runs
------------------------------------------------------------

namespace Program

/- A run returns the only number that is left. -/
theorem run_eq_ok_iff
    {p : Program}
    {v : Int32} :
    p.run = .ok v ↔
      Machine.exec 0 p ⟨[]⟩ = (.ok (), ⟨[v]⟩) := by
  unfold run Machine.run Machine.reset
  constructor
  · intro hRun
    rcases hExec : Machine.exec 0 p ⟨[]⟩ with
      ⟨_ | _, ⟨_ | ⟨v', _ | ⟨w, rest⟩⟩⟩⟩ <;>
      rw [hExec] at hRun <;>
      cases hRun
    rfl
  · intro hExec
    rw [hExec]

theorem run_of_exec_eq_error
    {p : Program}
    {f : Failure}
    {m : Machine}
    (hExec : Machine.exec 0 p ⟨[]⟩ = (.error f, m)) :
    p.run = .error f := by
  simp [run, Machine.run, Machine.reset, hExec]

/-
  A run fails where an instruction does, or at its end with
  a number of values left that is not one.
-/
theorem run_error_cases
    {p : Program}
    {f : Failure}
    (hRun : p.run = .error f) :
    (∃ m, Machine.exec 0 p ⟨[]⟩ = (.error f, m)) ∨
      f.cause = .unbalancedStack := by
  unfold run Machine.run Machine.reset at hRun
  rcases hExec : Machine.exec 0 p ⟨[]⟩ with ⟨_ | _, m⟩
  · simp only [hExec] at hRun
    cases hRun
    exact .inl ⟨m, rfl⟩
  · simp only [hExec] at hRun
    split at hRun
    · cases hRun
    · cases hRun
      exact .inr rfl

end Program

end ExprCompiler
