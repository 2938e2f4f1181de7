import ExprCompiler.Proofs.PostfixCode
import Mathlib.Data.Nat.Find

/-
  The heights of its stack decide how a program ends.

  Key definitions include:
    * `Program.values`
    * `Program.IsFault`
    * `Program.FirstFault`
    * `Program.DividesByZero`
    * `Program.Verdict`

  Main declarations:
    * `Machine.step_of_supplied`
    * `Program.exec_take`
    * `Program.verdict_run`
    * `Program.run_decided_by_heights`

  The height of the stack in front of an instruction depends
  on the opcodes alone. Up to the first instruction that is
  unknown or lacks operands, a run can only fail at a
  division by zero.
-/

------------------------------------------------------------
-- Numbers on the Stack
------------------------------------------------------------

namespace ExprCompiler

namespace Instruction

/-
  The numbers on a stack behind an instruction, with the top
  first. An instruction without its operands leaves the
  stack alone, and a quotient by zero counts as zero.
-/
def effect
    (i : Instruction)
    (stack : List Int32) :
    List Int32 :=
  match i.opcode, stack with
  | .push, stack => i.value.toInt32 :: stack
  | .neg, v :: stack => -v :: stack
  | .add, r :: l :: stack => (l + r) :: stack
  | .sub, r :: l :: stack => (l - r) :: stack
  | .mul, r :: l :: stack => (l * r) :: stack
  | .div, r :: l :: stack => (l / r) :: stack
  | _, stack => stack

/- With its operands, an instruction makes the stack rise. -/
theorem length_effect
    {i : Instruction}
    {stack : List Int32}
    (hOperands : i.opcode.operands ≤ stack.length) :
    ((i.effect stack).length : Int) =
      stack.length + i.opcode.rise := by
  rcases i with ⟨opcode, value⟩
  rcases stack with _ | ⟨r, _ | ⟨l, stack⟩⟩
  · cases opcode <;>
      simp_all [effect, Opcode.operands, Opcode.rise]
  · cases opcode <;>
      simp_all [effect, Opcode.operands, Opcode.rise]
  · cases opcode <;>
      simp only [effect, Opcode.rise, List.length_cons] <;>
      omega

end Instruction

namespace Opcode

/- What goes wrong where an opcode cannot be carried out. -/
def fault : Opcode → Failure
| .unknown code _ => .unknownOp (.opcode code)
| _ => ⟨.stackUnderflow, []⟩

theorem fault_of_isKnown
    {opcode : Opcode}
    (hKnown : opcode.IsKnown) :
    opcode.fault = ⟨.stackUnderflow, []⟩ := by
  cases opcode with
  | unknown code h => cases hKnown
  | _ => rfl

theorem cause_fault_eq_unknownOp_iff
    {opcode : Opcode} :
    opcode.fault.cause = .unknownOp ↔
      ¬ opcode.IsKnown := by
  cases opcode <;>
    simp [fault, Failure.unknownOp, IsKnown]

theorem cause_fault_eq_stackUnderflow_iff
    {opcode : Opcode} :
    opcode.fault.cause = .stackUnderflow ↔
      opcode.IsKnown := by
  cases opcode <;>
    simp [fault, Failure.unknownOp, IsKnown]

end Opcode

------------------------------------------------------------
-- Steps
------------------------------------------------------------

namespace Machine

/-
  A known instruction with its operands is carried out if it
  does not divide by zero.
-/
theorem step_of_supplied
    {i : Instruction}
    {stack : List Int32}
    (hKnown : i.opcode.IsKnown)
    (hOperands : i.opcode.operands ≤ stack.length)
    (hDivisor : i.opcode = .div → stack.head? ≠ some 0) :
    step i ⟨stack⟩ = (.ok (), ⟨i.effect stack⟩) := by
  rcases i with ⟨opcode, value⟩
  cases opcode with
  | push => rfl
  | unknown code h => cases hKnown
  | pos =>
      rcases stack with _ | ⟨v, stack⟩
      · simp [Opcode.operands] at hOperands
      · rfl
  | neg =>
      rcases stack with _ | ⟨v, stack⟩
      · simp [Opcode.operands] at hOperands
      · rfl
  | div =>
      rcases stack with _ | ⟨r, _ | ⟨l, stack⟩⟩
      · simp [Opcode.operands] at hOperands
      · simp [Opcode.operands] at hOperands
      · have hNonzero : r ≠ 0 := by
          simpa using hDivisor rfl
        simp [step, applyBinary, pop, BinaryOp.apply,
          divide, hNonzero, push, Instruction.effect]
  | _ =>
      rcases stack with _ | ⟨r, _ | ⟨l, stack⟩⟩
      · simp [Opcode.operands] at hOperands
      · simp [Opcode.operands] at hOperands
      · rfl

/- An instruction that is unknown or lacks operands fails. -/
theorem step_of_fault
    {i : Instruction}
    {stack : List Int32}
    (hFault :
      ¬ i.opcode.IsKnown ∨
        stack.length < i.opcode.operands) :
    ∃ m, step i ⟨stack⟩ = (.error i.opcode.fault, m) := by
  rcases i.opcode.role_cases with
    hPush | ⟨op, hOp⟩ | ⟨op, hOp⟩ | ⟨code, h, hUnknown⟩
  · simp [hPush, Opcode.IsKnown, Opcode.operands] at hFault
  · rcases op.effect_of_opcode? hOp with ⟨hKnown, hOne, _⟩
    rw [step_of_unary hOp, Opcode.fault_of_isKnown hKnown]
    rcases stack with _ | ⟨v, stack⟩
    · exact ⟨_, rfl⟩
    · simp [hKnown, hOne] at hFault
  · rcases op.effect_of_opcode? hOp with ⟨hKnown, hTwo, _⟩
    rw [step_of_binary hOp, Opcode.fault_of_isKnown hKnown]
    rcases stack with _ | ⟨r, _ | ⟨l, stack⟩⟩
    · exact ⟨_, rfl⟩
    · exact ⟨_, rfl⟩
    · rcases hFault with hUnknown | hLess
      · exact absurd hKnown hUnknown
      · simp only [hTwo, List.length_cons] at hLess
        omega
  · rw [step, hUnknown]
    exact ⟨_, rfl⟩

/- A run ends where its program does not go on. -/
theorem run_of_exec_eq_error
    {p : Program}
    {f : Failure}
    {stop : Machine}
    (m : Machine)
    (hExec : exec 0 p ⟨[]⟩ = (.error f, stop)) :
    run p m = (.error f, stop) := by
  simp only [run, reset, hExec]

/- A division fails where its divisor is zero. -/
theorem step_of_zero_divisor
    {i : Instruction}
    (hDiv : i.opcode = .div)
    (left : Int32)
    (rest : List Int32) :
    step i ⟨0 :: left :: rest⟩ =
      (.error ⟨.arithmetic ⟨.div, left, 0⟩, []⟩,
        ⟨rest⟩) := by
  rw [step, hDiv]
  rfl

end Machine

------------------------------------------------------------
-- Faults and Divisions by Zero
------------------------------------------------------------

namespace Program

/-
  The numbers that a program leaves on an empty stack, the
  last one first.
-/
def values
    (p : Program) :
    List Int32 :=
  p.foldl (fun stack i => i.effect stack) []

theorem values_concat
    (p : Program)
    (i : Instruction) :
    values (p ++ [i]) = i.effect (values p) := by
  simp [values]

/-
  The instruction with the given index is unknown or lacks
  operands, counting the height of the stack from zero.
-/
def IsFault
    (p : Program)
    (n : Nat) :
    Prop :=
  ∃ i, p[n]? = some i ∧
    (¬ i.opcode.IsKnown ∨
      height (p.take n) < i.opcode.operands)

/- The first instruction that is unknown or lacks operands. -/
structure FirstFault
    (p : Program)
    (n : Nat)
    (i : Instruction) :
    Prop where
  at_index : p[n]? = some i
  isFault : p.IsFault n
  first : ∀ k < n, ¬ p.IsFault k

/- The instruction with the given index divides by zero. -/
def DividesByZero
    (p : Program)
    (n : Nat) :
    Prop :=
  ∃ i, p[n]? = some i ∧ i.opcode = .div ∧
    (values (p.take n)).head? = some 0

theorem dividesByZero_of_values
    {p : Program}
    {n : Nat}
    {i : Instruction}
    {rest : List Int32}
    (hAt : p[n]? = some i)
    (hDiv : i.opcode = .div)
    (hValues : values (p.take n) = 0 :: rest) :
    p.DividesByZero n := by
  refine ⟨i, hAt, hDiv, ?_⟩
  rw [hValues, List.head?_cons]

/- In front of the given index nothing is divided by zero. -/
def NonzeroBefore
    (p : Program)
    (n : Nat) :
    Prop :=
  ∀ k < n, ¬ p.DividesByZero k

theorem FirstFault.unique
    {p : Program}
    {n n' : Nat}
    {i i' : Instruction}
    (hFirst : p.FirstFault n i)
    (hFirst' : p.FirstFault n' i') :
    n = n' ∧ i = i' := by
  have hIndex : n = n' := by
    rcases Nat.lt_trichotomy n n' with hLess | hSame | hMore
    · exact absurd hFirst.isFault (hFirst'.first n hLess)
    · exact hSame
    · exact absurd hFirst'.isFault (hFirst.first n' hMore)
  subst hIndex
  exact ⟨rfl, Option.some.inj
    (hFirst.at_index.symm.trans hFirst'.at_index)⟩

/-
  In front of the first fault and the first division by zero
  a program is carried out, and the stack has its height.
-/
theorem exec_take
    {p : Program}
    {n : Nat}
    (hLength : n ≤ p.length)
    (hSound : ∀ k < n, ¬ p.IsFault k)
    (hNonzero : p.NonzeroBefore n) :
    Machine.exec 0 (p.take n) ⟨[]⟩ =
        (.ok (), ⟨values (p.take n)⟩) ∧
      ((values (p.take n)).length : Int) =
        height (p.take n) := by
  -- The induction adds instructions at the end, since what
  -- is known of each is told by all those in front of it.
  induction n with
  | zero => simp [Machine.exec, values, height]
  | succ n ih =>
      rcases ih (by omega) (fun k hk => hSound k (by omega))
          (fun k hk => hNonzero k (by omega)) with
        ⟨hExec, hHeight⟩
      have hAt := List.getElem?_eq_getElem (l := p) hLength
      generalize p[n] = i at hAt
      have hSupplied :
          i.opcode.IsKnown ∧
            i.opcode.operands ≤
              (values (p.take n)).length := by
        have hClean := hSound n (by omega)
        simp only [IsFault, hAt, Option.some.injEq,
          exists_eq_left', not_or, not_not] at hClean
        exact ⟨hClean.1, by omega⟩
      have hDivisor :
          i.opcode = .div →
            (values (p.take n)).head? ≠ some 0 := by
        intro hDiv hZero
        exact hNonzero n (by omega) ⟨i, hAt, hDiv, hZero⟩
      have hStep :=
        Machine.step_of_supplied hSupplied.1 hSupplied.2
          hDivisor
      rw [List.take_add_one, hAt, Option.toList_some,
        Machine.exec_append_of_ok hExec, values_concat,
        Machine.exec_singleton_of_ok hStep, height_append,
        height_singleton,
        Instruction.length_effect hSupplied.2, hHeight]
      exact ⟨rfl, rfl⟩

------------------------------------------------------------
-- Verdicts
------------------------------------------------------------

/- A program is carried out up to an instruction that fails. -/
theorem exec_of_step_eq_error
    {p : Program}
    {n : Nat}
    {i : Instruction}
    (hAt : p[n]? = some i)
    (hSound : ∀ k < n, ¬ p.IsFault k)
    (hNonzero : p.NonzeroBefore n)
    {f : Failure}
    {m : Machine}
    (hStep :
      Machine.step i ⟨values (p.take n)⟩ = (.error f, m)) :
    Machine.exec 0 p ⟨[]⟩ =
      (.error (f.within (.instruction n i)), m) := by
  rcases List.getElem?_eq_some_iff.mp hAt with
    ⟨hLength, hGet⟩
  have hExec := (exec_take (by omega) hSound hNonzero).1
  have hIndex : 0 + (p.take n).length = n := by
    rw [List.length_take]
    omega
  rw [← List.take_append_drop n p,
    Machine.exec_append_of_ok hExec, hIndex,
    List.drop_eq_getElem_cons hLength, hGet]
  simp only [Machine.exec, hStep]

/-
  How a run of a program ends: at the first fault, with a
  value, with too few or too many of them, or at the first
  division by zero.
-/
inductive Verdict
    (p : Program) :
    Except Failure Int32 → Prop
  | fault
      {n : Nat}
      {i : Instruction}
      (hFirst : p.FirstFault n i)
      (hNonzero : p.NonzeroBefore n)
      (hPush : i.opcode ≠ .push) :
      Verdict p
        (.error (i.opcode.fault.within (.instruction n i)))
  | value
      {v : Int32}
      (hSound : ∀ n, ¬ p.IsFault n)
      (hNonzero : p.NonzeroBefore p.length)
      (hHeight : p.height = 1)
      (hValues : p.values = [v]) :
      Verdict p (.ok v)
  | unbalanced
      {count : Nat}
      (hSound : ∀ n, ¬ p.IsFault n)
      (hNonzero : p.NonzeroBefore p.length)
      (hHeight : p.height = count)
      (hCount : count ≠ 1) :
      Verdict p
        (.error ⟨.unbalancedStack, [.valuesLeft count]⟩)
  | division
      {n : Nat}
      {i : Instruction}
      {left : Int32}
      {rest : List Int32}
      (hAt : p[n]? = some i)
      (hDiv : i.opcode = .div)
      (hValues : values (p.take n) = 0 :: left :: rest)
      (hSound : ∀ k ≤ n, ¬ p.IsFault k)
      (hNonzero : p.NonzeroBefore n) :
      Verdict p
        (.error ⟨.arithmetic ⟨.div, left, 0⟩,
          [.instruction n i]⟩)

/- A program without faults ends by what it leaves. -/
theorem verdict_of_sound
    {p : Program}
    (hSound : ∀ n, ¬ p.IsFault n)
    (hNonzero : p.NonzeroBefore p.length)
    (m : Machine) :
    p.Verdict (Machine.run p m).1 := by
  rcases exec_take (Nat.le_refl _) (fun k _ => hSound k)
      hNonzero with
    ⟨hExec, hHeight⟩
  rw [List.take_length] at hExec hHeight
  simp only [Machine.run, Machine.reset, hExec]
  split
  · rename_i v hValues
    rw [hValues] at hHeight
    exact .value hSound hNonzero hHeight.symm hValues
  · rename_i hOther
    refine .unbalanced hSound hNonzero hHeight.symm ?_
    intro hOne
    rcases List.length_eq_one_iff.mp hOne with ⟨v, hValues⟩
    exact hOther v hValues

/- A run fails at the first fault or division by zero. -/
theorem verdict_of_first
    {p : Program}
    {n : Nat}
    (hFails : p.IsFault n ∨ p.DividesByZero n)
    (hSound : ∀ k < n, ¬ p.IsFault k)
    (hNonzero : p.NonzeroBefore n)
    (m : Machine) :
    p.Verdict (Machine.run p m).1 := by
  have hHeight :
      n ≤ p.length → ((values (p.take n)).length : Int) =
        height (p.take n) :=
    fun hLength => (exec_take hLength hSound hNonzero).2
  by_cases hFault : p.IsFault n
  · rcases hFault with ⟨i, hAt, hWhy⟩
    have hLength := (List.getElem?_eq_some_iff.mp hAt).1
    have hLacks :
        ¬ i.opcode.IsKnown ∨
          (values (p.take n)).length <
            i.opcode.operands := by
      rwa [← hHeight (by omega), Int.ofNat_lt] at hWhy
    have hPush : i.opcode ≠ .push := by
      intro hPush
      simp [hPush, Opcode.IsKnown,
        Opcode.operands] at hLacks
    rcases Machine.step_of_fault hLacks with ⟨m', hStep⟩
    rw [Machine.run_of_exec_eq_error m
      (exec_of_step_eq_error hAt hSound hNonzero hStep)]
    exact .fault ⟨hAt, ⟨i, hAt, hWhy⟩, hSound⟩ hNonzero
      hPush
  · rcases hFails.resolve_left hFault with
      ⟨i, hAt, hDiv, hZero⟩
    have hLength := (List.getElem?_eq_some_iff.mp hAt).1
    have hOperands : 2 ≤ (values (p.take n)).length := by
      have hHigh : ¬ height (p.take n) < 2 := by
        intro hLow
        refine hFault ⟨i, hAt, .inr ?_⟩
        rw [hDiv]
        exact hLow
      have hSame := hHeight (by omega)
      omega
    rcases hValues : values (p.take n) with
      _ | ⟨right, _ | ⟨left, rest⟩⟩
    · simp [hValues] at hOperands
    · simp [hValues] at hOperands
    · obtain rfl : right = 0 := by
        simpa [hValues] using hZero
      have hStep :=
        Machine.step_of_zero_divisor hDiv left rest
      rw [← hValues] at hStep
      rw [Machine.run_of_exec_eq_error m
        (exec_of_step_eq_error hAt hSound hNonzero hStep)]
      refine .division hAt hDiv hValues ?_ hNonzero
      intro k hk
      rcases Nat.lt_or_eq_of_le hk with hLess | rfl
      · exact hSound k hLess
      · exact hFault

/- Every run ends in one of the ways. -/
theorem verdict_run
    (p : Program)
    (m : Machine) :
    p.Verdict (Machine.run p m).1 := by
  classical
  by_cases hFails : ∃ n, p.IsFault n ∨ p.DividesByZero n
  · -- The run ends at the least of these indices.
    have hFirst :
        ∀ k < Nat.find hFails,
          ¬ (p.IsFault k ∨ p.DividesByZero k) :=
      fun k hk => Nat.find_min hFails hk
    exact verdict_of_first (Nat.find_spec hFails)
      (fun k hk hFault => hFirst k hk (.inl hFault))
      (fun k hk hZero => hFirst k hk (.inr hZero)) m
  · rw [not_exists] at hFails
    exact verdict_of_sound
      (fun n hFault => hFails n (.inl hFault))
      (fun n _ hZero => hFails n (.inr hZero)) m

------------------------------------------------------------
-- Where Runs Fail
------------------------------------------------------------

/- An outcome is a failure at the given index. -/
def FailsAt
    (p : Program)
    (outcome : Except Failure Int32)
    (cause : Cause)
    (n : Nat) :
    Prop :=
  ∃ i contexts, p[n]? = some i ∧
    outcome = .error ⟨cause, .instruction n i :: contexts⟩

section Verdicts

variable {p : Program} {outcome : Except Failure Int32}

/- The first fault is reported unless a division fails. -/
theorem Verdict.eq_of_firstFault
    (hVerdict : p.Verdict outcome)
    {n : Nat}
    {i : Instruction}
    (hFirst : p.FirstFault n i)
    (hNonzero : p.NonzeroBefore n) :
    outcome =
      .error (i.opcode.fault.within (.instruction n i)) := by
  cases hVerdict with
  | fault hFirst' _ _ =>
      rcases hFirst.unique hFirst' with ⟨rfl, rfl⟩
      rfl
  | value hSound _ _ _ =>
      exact absurd hFirst.isFault (hSound n)
  | unbalanced hSound _ _ _ =>
      exact absurd hFirst.isFault (hSound n)
  | @division n' _ _ _ hAt hDiv hValues hSound _ =>
      by_cases hBefore : n' < n
      · exact absurd
          (dividesByZero_of_values hAt hDiv hValues)
          (hNonzero n' hBefore)
      · exact absurd hFirst.isFault (hSound n (by omega))

theorem Verdict.failsAt_iff
    (hVerdict : p.Verdict outcome)
    {cause : Cause}
    (hCause : cause = .unknownOp ∨ cause = .stackUnderflow)
    (n : Nat) :
    p.FailsAt outcome cause n ↔
      ∃ i, p.FirstFault n i ∧
        i.opcode.fault.cause = cause ∧
        p.NonzeroBefore n := by
  constructor
  · rintro ⟨i, contexts, hAt, hOutcome⟩
    cases hVerdict with
    | @fault n' i' hFirst hNonzero _ =>
        simp only [Failure.within, Except.error.injEq,
          Failure.mk.injEq, List.cons.injEq,
          Context.instruction.injEq] at hOutcome
        rcases hOutcome with ⟨hSame, ⟨rfl, rfl⟩, _⟩
        exact ⟨i', hFirst, hSame, hNonzero⟩
    | value _ _ _ _ => cases hOutcome
    | unbalanced _ _ _ _ => cases hOutcome
    | division _ _ _ _ _ =>
        cases hOutcome
        simp at hCause
  · rintro ⟨i, hFirst, rfl, hNonzero⟩
    exact ⟨i, _, hFirst.at_index,
      hVerdict.eq_of_firstFault hFirst hNonzero⟩

/- Without faults and zero divisors, the height decides. -/
theorem Verdict.leaves_height
    (hVerdict : p.Verdict outcome)
    (hSound : ∀ n, ¬ p.IsFault n)
    (hNonzero : p.NonzeroBefore p.length) :
    (p.height = 1 →
        ∃ v, p.values = [v] ∧ outcome = .ok v) ∧
      (p.height ≠ 1 →
        ∃ count : Nat, p.height = count ∧
          outcome = .error
            ⟨.unbalancedStack, [.valuesLeft count]⟩) := by
  cases hVerdict with
  | @fault n _ hFirst _ _ =>
      exact absurd hFirst.isFault (hSound n)
  | @value v _ _ hHeight hValues =>
      exact ⟨fun _ => ⟨v, hValues, rfl⟩,
        fun hOther => absurd hHeight hOther⟩
  | @unbalanced count _ _ hHeight hCount =>
      refine ⟨fun hOne => ?_,
        fun _ => ⟨count, hHeight, rfl⟩⟩
      rw [hHeight] at hOne
      exact absurd (Int.ofNat_inj.mp hOne) hCount
  | @division n _ _ _ hAt hDiv hValues _ _ =>
      have hLess := (List.getElem?_eq_some_iff.mp hAt).1
      exact absurd
        (dividesByZero_of_values hAt hDiv hValues)
        (hNonzero n hLess)

/- In all other cases a division by zero is reported. -/
theorem Verdict.fails_at_division
    (hVerdict : p.Verdict outcome)
    (hFault :
      ¬ ∃ n i, p.FirstFault n i ∧ p.NonzeroBefore n)
    (hUnsound :
      ¬ ((∀ n, ¬ p.IsFault n) ∧
        p.NonzeroBefore p.length)) :
    ∃ n left rest,
      values (p.take n) = 0 :: left :: rest ∧
        p.DividesByZero n ∧ p.NonzeroBefore n ∧
        p.FailsAt outcome
          (.arithmetic ⟨.div, left, 0⟩) n := by
  cases hVerdict with
  | @fault n i hFirst hNonzero _ =>
      exact absurd ⟨n, i, hFirst, hNonzero⟩ hFault
  | value hSound hNonzero _ _ =>
      exact absurd ⟨hSound, hNonzero⟩ hUnsound
  | unbalanced hSound hNonzero _ _ =>
      exact absurd ⟨hSound, hNonzero⟩ hUnsound
  | @division n i left rest hAt hDiv hValues _ hNonzero =>
      exact ⟨n, left, rest, hValues,
        dividesByZero_of_values hAt hDiv hValues, hNonzero,
        i, [], hAt, rfl⟩

end Verdicts

------------------------------------------------------------
-- Programs with the Same Opcodes
------------------------------------------------------------

section Opcodes

variable {p q : Program}

theorem height_eq_of_opcodes
    (hOpcodes : p.map (·.opcode) = q.map (·.opcode)) :
    p.height = q.height := by
  have hSum :
      ∀ r : Program,
        r.height = ((r.map (·.opcode)).map Opcode.rise).sum := by
    intro r
    induction r with
    | nil => rfl
    | cons i r ih => simp [height, ih]
  rw [hSum, hSum, hOpcodes]

theorem exists_getElem?_of_opcodes
    (hOpcodes : p.map (·.opcode) = q.map (·.opcode))
    {n : Nat}
    {i : Instruction}
    (hAt : p[n]? = some i) :
    ∃ j, q[n]? = some j ∧ j.opcode = i.opcode := by
  have hMap := congrArg (fun os => os[n]?) hOpcodes
  simp only [List.getElem?_map, hAt, Option.map_some] at hMap
  exact Option.map_eq_some_iff.mp hMap.symm

/- The same instructions are at fault. -/
theorem isFault_of_opcodes
    (hOpcodes : p.map (·.opcode) = q.map (·.opcode))
    {n : Nat}
    (hFault : p.IsFault n) :
    q.IsFault n := by
  rcases hFault with ⟨i, hAt, hWhy⟩
  rcases exists_getElem?_of_opcodes hOpcodes hAt with
    ⟨j, hAt', hSame⟩
  have hTake :
      height (p.take n) = height (q.take n) := by
    apply height_eq_of_opcodes
    rw [List.map_take, List.map_take, hOpcodes]
  rw [← hSame, hTake] at hWhy
  exact ⟨j, hAt', hWhy⟩

theorem exists_firstFault_of_opcodes
    (hOpcodes : p.map (·.opcode) = q.map (·.opcode))
    {n : Nat}
    {i : Instruction}
    (hFirst : p.FirstFault n i) :
    ∃ j, q.FirstFault n j ∧ j.opcode = i.opcode := by
  rcases exists_getElem?_of_opcodes hOpcodes
      hFirst.at_index with
    ⟨j, hAt, hSame⟩
  refine ⟨j, ⟨hAt, ?_, ?_⟩, hSame⟩
  · exact isFault_of_opcodes hOpcodes hFirst.isFault
  · intro k hk hFault
    exact hFirst.first k hk
      (isFault_of_opcodes hOpcodes.symm hFault)

/- The text of an operation is that of its opcode. -/
theorem message_fault_eq
    {i j : Instruction}
    (hSame : j.opcode = i.opcode)
    (hPush : i.opcode ≠ .push)
    (n : Nat) :
    (j.opcode.fault.within (.instruction n j)).message =
      (i.opcode.fault.within (.instruction n i)).message := by
  have hText : j.text = i.text := by
    unfold Instruction.text
    rw [hSame]
    split
    · rename_i hOpcode
      exact absurd hOpcode hPush
    · rfl
  calc
    (j.opcode.fault.within (.instruction n j)).message =
        "instruction " ++ toString n ++ " (" ++ j.text ++
          ")" ++ ": " ++ j.opcode.fault.message := rfl
    _ = "instruction " ++ toString n ++ " (" ++ i.text ++
          ")" ++ ": " ++ i.opcode.fault.message := by
      rw [hText, hSame]
    _ = (i.opcode.fault.within
          (.instruction n i)).message := rfl

/- No division by zero is reported. -/
def IsQuiet
    (outcome : Except Failure Int32) :
    Prop :=
  ∀ f a, outcome = .error f → f.cause ≠ .arithmetic a

/- Then a run ends at the first fault, or there is none. -/
theorem Verdict.fault_or_sound
    {outcome : Except Failure Int32}
    (hVerdict : p.Verdict outcome)
    (hQuiet : IsQuiet outcome) :
    (∃ n i, p.FirstFault n i ∧ i.opcode ≠ .push ∧
        outcome = .error
          (i.opcode.fault.within (.instruction n i))) ∨
      (∀ n, ¬ p.IsFault n) ∧
        p.NonzeroBefore p.length := by
  cases hVerdict with
  | @fault n i hFirst _ hPush =>
      exact .inl ⟨n, i, hFirst, hPush, rfl⟩
  | value hSound hNonzero _ _ =>
      exact .inr ⟨hSound, hNonzero⟩
  | unbalanced hSound hNonzero _ _ =>
      exact .inr ⟨hSound, hNonzero⟩
  | division _ _ _ _ _ => exact absurd rfl (hQuiet _ _ rfl)

/- Opcodes alone decide how such runs end. -/
theorem Verdict.agree
    {outcome outcome' : Except Failure Int32}
    (hVerdict : p.Verdict outcome)
    (hVerdict' : q.Verdict outcome')
    (hOpcodes : p.map (·.opcode) = q.map (·.opcode))
    (hQuiet : IsQuiet outcome)
    (hQuiet' : IsQuiet outcome') :
    (∃ v w, outcome = .ok v ∧ outcome' = .ok w) ∨
      ∃ f g, outcome = .error f ∧ outcome' = .error g ∧
        f.message = g.message := by
  -- Faults and heights are matters of opcodes, so both runs
  -- are in the same one of the two cases.
  rcases hVerdict.fault_or_sound hQuiet with
    ⟨n, i, hFirst, hPush, hFails⟩ | ⟨hSound, hNonzero⟩
  · rcases exists_firstFault_of_opcodes hOpcodes hFirst with
      ⟨j, hFirst', hSame⟩
    rcases hVerdict'.fault_or_sound hQuiet' with
      ⟨n', j', hOther, _, hFails'⟩ | ⟨hSound', _⟩
    · rcases hFirst'.unique hOther with ⟨rfl, rfl⟩
      exact .inr ⟨_, _, hFails, hFails',
        (message_fault_eq hSame hPush n).symm⟩
    · exact absurd hFirst'.isFault (hSound' n)
  · rcases hVerdict'.fault_or_sound hQuiet' with
      ⟨n, j, hFirst', _, _⟩ | ⟨hSound', hNonzero'⟩
    · exact absurd
        (isFault_of_opcodes hOpcodes.symm hFirst'.isFault)
        (hSound n)
    · have hLeaves := hVerdict.leaves_height hSound hNonzero
      have hLeaves' := hVerdict'.leaves_height hSound' hNonzero'
      rw [← height_eq_of_opcodes hOpcodes] at hLeaves'
      by_cases hOne : p.height = 1
      · rcases hLeaves.1 hOne with ⟨v, _, hValue⟩
        rcases hLeaves'.1 hOne with ⟨w, _, hValue'⟩
        exact .inl ⟨v, w, hValue, hValue'⟩
      · rcases hLeaves.2 hOne with ⟨count, hCount, hFails⟩
        rcases hLeaves'.2 hOne with
          ⟨count', hCount', hFails'⟩
        obtain rfl : count = count' := by
          omega
        exact .inr ⟨_, _, hFails, hFails', rfl⟩

end Opcodes

------------------------------------------------------------
-- Runs
------------------------------------------------------------

/-
  A run fails at the first instruction that is unknown or
  lacks operands, by which of the two it is, unless it
  divided by zero before. Without such an instruction and
  without a zero divisor it leaves as many values as the
  opcodes say, and succeeds with one. In all other cases it
  fails at the first division by zero. So opcodes alone
  decide how a run ends that does not fail to divide.
-/
theorem run_decided_by_heights
    (p : Program)
    (m : Machine) :
    (∀ n, p.FailsAt (Machine.run p m).1 .unknownOp n ↔
        ∃ i, p.FirstFault n i ∧ ¬ i.opcode.IsKnown ∧
          p.NonzeroBefore n) ∧
      (∀ n, p.FailsAt (Machine.run p m).1 .stackUnderflow n ↔
        ∃ i, p.FirstFault n i ∧ i.opcode.IsKnown ∧
          p.NonzeroBefore n) ∧
      ((∀ n, ¬ p.IsFault n) → p.NonzeroBefore p.length →
        (p.height = 1 →
            ∃ v, p.values = [v] ∧
              (Machine.run p m).1 = .ok v) ∧
          (p.height ≠ 1 →
            ∃ count : Nat, p.height = count ∧
              (Machine.run p m).1 = .error
                ⟨.unbalancedStack, [.valuesLeft count]⟩)) ∧
      ((¬ ∃ n i, p.FirstFault n i ∧ p.NonzeroBefore n) →
        ¬ ((∀ n, ¬ p.IsFault n) ∧
          p.NonzeroBefore p.length) →
        ∃ n left rest,
          values (p.take n) = 0 :: left :: rest ∧
            p.DividesByZero n ∧ p.NonzeroBefore n ∧
            p.FailsAt (Machine.run p m).1
              (.arithmetic ⟨.div, left, 0⟩) n) ∧
      ∀ (q : Program) (m' : Machine),
        p.map (·.opcode) = q.map (·.opcode) →
        IsQuiet (Machine.run p m).1 →
        IsQuiet (Machine.run q m').1 →
        (∃ v w, (Machine.run p m).1 = .ok v ∧
            (Machine.run q m').1 = .ok w) ∨
          ∃ f g, (Machine.run p m).1 = .error f ∧
            (Machine.run q m').1 = .error g ∧
            f.message = g.message := by
  have hVerdict := verdict_run p m
  refine ⟨?_, ?_, hVerdict.leaves_height, hVerdict.fails_at_division,
    ?_⟩
  · intro n
    simp only [hVerdict.failsAt_iff (.inl rfl),
      Opcode.cause_fault_eq_unknownOp_iff]
  · intro n
    simp only [hVerdict.failsAt_iff (.inr rfl),
      Opcode.cause_fault_eq_stackUnderflow_iff]
  · intro q m' hOpcodes hQuiet hQuiet'
    exact hVerdict.agree (verdict_run q m') hOpcodes hQuiet
      hQuiet'

/-
  A division that finds nothing but a zero on the stack
  lacks an operand, whatever the machine held before.
-/
theorem run_of_lone_divisor :
    let p : Program := [.ofNumber 0, .ofOpcode .div]
    p.FirstFault 1 (.ofOpcode .div) ∧ p.NonzeroBefore 1 ∧
      p.FailsAt (Machine.run p ⟨[7]⟩).1 .stackUnderflow 1 := by
  intro p
  have hFirst : p.FirstFault 1 (.ofOpcode .div) := by
    refine ⟨rfl, ⟨_, rfl, .inr (by decide)⟩, ?_⟩
    intro k hk
    obtain rfl : k = 0 := by
      omega
    simp [p, IsFault, height, Instruction.ofNumber,
      Opcode.IsKnown, Opcode.operands]
  have hNonzero : p.NonzeroBefore 1 := by
    intro k hk
    obtain rfl : k = 0 := by
      omega
    simp [p, DividesByZero, Instruction.ofNumber]
  refine ⟨hFirst, hNonzero, ?_⟩
  exact ((run_decided_by_heights p ⟨[7]⟩).2.1 1).mpr
    ⟨_, hFirst, trivial, hNonzero⟩

end Program

end ExprCompiler
