import ExprCompiler.Proofs.CodeCorrectness
import ExprCompiler.Proofs.StackHeights
import ExprCompiler.Proofs.TreeFaults

/-
  Programs that are extended by one tree after the other.

  Key definitions include:
    * `Program.extendAll`

  Main declarations:
    * `Expr.exists_stacks_emit`
    * `Program.extend_snd`
    * `Program.Stacks.not_isFault`
    * `Program.exec_extendAll`
    * `Program.extendAll_is_safe`

  A tree that is at fault leaves the whole programs of some
  of its subtrees behind and nothing else. So whatever trees
  a program was extended by, it is made of whole programs,
  and every instruction finds its operands.
-/

------------------------------------------------------------
-- Output of a Tree at Fault
------------------------------------------------------------

namespace ExprCompiler

namespace Program

theorem stacks_of_code
    {e : Expr}
    {p : Program}
    (hCode : e.code = .ok p) :
    Stacks p [e] :=
  Stacks.nil.cons hCode

/- Programs in a row are made of what each is made of. -/
theorem Stacks.append
    {p q : Program}
    {es es' : List Expr}
    (hFirst : Stacks p es)
    (hSecond : Stacks q es') :
    Stacks (p ++ q) (es' ++ es) := by
  induction hSecond with
  | nil =>
      rw [List.append_nil]
      exact hFirst
  | cons _ hCode ih =>
      rw [← List.append_assoc, List.cons_append]
      exact ih.cons hCode

end Program

namespace Emission

section Emissions

variable {e : Emission}

theorem program_after
    (earlier : List Instruction)
    (e : Emission) :
    (e.after earlier).program =
      earlier.reverse ++ e.program := by
  simp [after, program]

theorem failure_after
    {earlier : List Instruction} :
    (e.after earlier).failure = e.failure :=
  rfl

theorem andThen_of_failure
    {f : Failure}
    (hFailure : e.failure = some f)
    (next : List Instruction → Emission) :
    e.andThen next = e := by
  simp only [andThen, hFailure]

theorem apply_of_failure
    {f : Failure}
    (hFailure : e.failure = some f)
    (opcode : Opcode) :
    e.apply opcode = e :=
  andThen_of_failure hFailure _

theorem program_apply
    (hFailure : e.failure = none)
    (opcode : Opcode) :
    (e.apply opcode).program =
      e.program ++ [.ofOpcode opcode] := by
  simp [apply, andThen, hFailure, program]

end Emissions

end Emission

namespace Expr

theorem program_emit_of_code
    {e : Expr}
    {p : Program}
    (hCode : e.code = .ok p) :
    (e.emit []).program = p := by
  rw [code_eq_ok_iff.mp hCode, Emission.program,
    List.reverse_reverse]

theorem code_of_failure_eq_none
    {e : Expr}
    (hFailure : (e.emit []).failure = none) :
    e.code = .ok (e.emit []).program := by
  simp only [code, Emission.outcome, hFailure]
  rfl

/- A tree with a value has a program. -/
theorem exists_code_of_eval
    {e : Expr}
    {v : Int32}
    (hEval : e.eval = .ok v) :
    ∃ p, e.code = .ok p := by
  apply exists_code_of_isLegal
  rw [← findSome?_postorder_eq_none_iff,
    List.findSome?_eq_none_iff]
  intro node hMem
  rcases exists_eval_of_mem_postorder hEval hMem with
    ⟨w, hNode⟩
  exact fault?_eq_none_of_eval hNode

/- Two trees in a row, of which the first is complete. -/
theorem andThen_emit
    {l : Expr}
    (hFailure : (l.emit []).failure = none)
    (r : Expr) :
    (l.emit []).andThen r.emit =
      (r.emit []).after (l.emit []).output := by
  simp only [Emission.andThen, hFailure]
  exact r.emit_eq_after _

/-
  What a tree puts out is made of the programs of trees,
  whether or not it is at fault.
-/
theorem exists_stacks_emit
    (e : Expr) :
    ∃ es, Program.Stacks (e.emit []).program es := by
  -- An operand at fault is the last one to be visited, and
  -- those in front of it have put out their whole programs.
  induction e with
  | missing => exact ⟨[], .nil⟩
  | number value =>
      exact ⟨_, Program.stacks_of_code (code_number value)⟩
  | unary op x ih =>
      cases hOpcode : op.opcode? with
      | none =>
          simp only [emit, hOpcode]
          exact ⟨[], .nil⟩
      | some opcode =>
          simp only [emit, hOpcode]
          cases hOperand : (x.emit []).failure with
          | some f =>
              rw [Emission.apply_of_failure hOperand]
              exact ih
          | none =>
              rw [Emission.program_apply hOperand]
              exact ⟨_, (Program.stacks_of_code
                (code_of_failure_eq_none hOperand)).unary
                hOpcode⟩
  | binary op l r ihLeft ihRight =>
      cases hOpcode : op.opcode? with
      | none =>
          simp only [emit, hOpcode]
          exact ⟨[], .nil⟩
      | some opcode =>
          simp only [emit, hOpcode]
          cases hLeft : (l.emit []).failure with
          | some f =>
              rw [Emission.andThen_of_failure hLeft,
                Emission.apply_of_failure hLeft]
              exact ihLeft
          | none =>
              have hFirst :=
                Program.stacks_of_code
                  (code_of_failure_eq_none hLeft)
              rw [andThen_emit hLeft]
              cases hRight : (r.emit []).failure with
              | some f =>
                  rcases ihRight with ⟨es, hSecond⟩
                  rw [Emission.apply_of_failure
                      (Emission.failure_after.trans hRight),
                    Emission.program_after]
                  exact ⟨_, hFirst.append hSecond⟩
              | none =>
                  have hSecond :=
                    Program.stacks_of_code
                      (code_of_failure_eq_none hRight)
                  rw [Emission.program_apply
                      (Emission.failure_after.trans hRight),
                    Emission.program_after]
                  exact ⟨_,
                    (hFirst.append hSecond).binary hOpcode⟩

end Expr

------------------------------------------------------------
-- Extended Programs
------------------------------------------------------------

namespace Program

/- The output of a tree comes behind what was there. -/
theorem extend_snd
    (p : Program)
    (e : Expr) :
    (p.extend e).2 = p ++ (e.emit []).program := by
  rw [extend, e.emit_eq_after, Emission.program_after,
    List.reverse_reverse]

/- A tree is answered as it is by the generator. -/
theorem extend_fst
    (p : Program)
    (e : Expr) :
    (p.extend e).1 = (e.emit []).outcome := by
  rw [extend, e.emit_eq_after]
  rfl

theorem extend_eq_ok_iff
    {p : Program}
    {e : Expr} :
    (p.extend e).1 = .ok () ↔
      e.code = .ok (e.emit []).program := by
  rw [extend_fst, Expr.code]
  cases (e.emit []).outcome with
  | error f => simp [Except.map]
  | ok u => simp [Except.map]

theorem extend_eq_error_iff
    {p : Program}
    {e : Expr}
    {f : Failure} :
    (p.extend e).1 = .error f ↔ e.code = .error f := by
  rw [extend_fst, Expr.code]
  cases (e.emit []).outcome with
  | error f' => simp [Except.map]
  | ok u => simp [Except.map]

/- The program behind the given trees. -/
def extendAll
    (es : List Expr)
    (p : Program) :
    Program :=
  es.foldl (fun p e => (p.extend e).2) p

theorem exists_stacks_extendAll
    {p : Program}
    {ds : List Expr}
    (hStacks : Stacks p ds)
    (es : List Expr) :
    ∃ ds', Stacks (extendAll es p) ds' := by
  induction es generalizing p ds with
  | nil => exact ⟨ds, hStacks⟩
  | cons e es ih =>
      rcases e.exists_stacks_emit with ⟨more, hMore⟩
      have hNext := hStacks.append hMore
      rw [← extend_snd] at hNext
      exact ih hNext

------------------------------------------------------------
-- Execution
------------------------------------------------------------

section Execution

variable {p : Program} {es : List Expr}

/- Whole programs in a row give each instruction its due. -/
theorem Stacks.supplied
    (hStacks : Stacks p es) :
    (∀ i ∈ p, i.opcode.IsKnown) ∧ SuppliedFrom 0 p ∧
      height p = es.length := by
  induction hStacks with
  | nil => simp [suppliedFrom_nil, height]
  | @cons p q e es _ hCode ih =>
      rcases ih with ⟨hKnown, hSupplied, hHeight⟩
      rcases suppliedFrom_of_code hCode
          (h := height p) (by omega) with
        ⟨hBehind, hOne⟩
      refine ⟨?_, ?_, ?_⟩
      · exact List.forall_mem_append.mpr
          ⟨hKnown, (isPostfix_of_code hCode).known⟩
      · rw [suppliedFrom_append_iff, Int.zero_add]
        exact ⟨hSupplied, hBehind⟩
      · rw [height_append, hHeight, hOne]
        rfl

theorem Stacks.not_isFault
    (hStacks : Stacks p es)
    (n : Nat) :
    ¬ p.IsFault n := by
  rcases hStacks.supplied with ⟨hKnown, hSupplied, _⟩
  rintro ⟨i, hAt, hWhy⟩
  rcases hWhy with hUnknown | hLacks
  · exact hUnknown (hKnown i (List.mem_of_getElem? hAt))
  · rcases List.getElem?_eq_some_iff.mp hAt with
      ⟨hLess, rfl⟩
    have hOperands :=
      hSupplied (p.take n) p[n] (p.drop (n + 1)) (by simp)
    omega

/- Without faults, only a division by zero ends a program. -/
theorem exec_error_of_sound
    (hSound : ∀ n, ¬ p.IsFault n)
    {f : Failure}
    {m : Machine}
    (hExec : Machine.exec 0 p ⟨[]⟩ = (.error f, m)) :
    ∃ left n i,
      f = ⟨.arithmetic ⟨.div, left, 0⟩,
        [.instruction n i]⟩ := by
  have hVerdict := verdict_run p ⟨[]⟩
  rw [Machine.run_of_exec_eq_error _ hExec] at hVerdict
  cases hVerdict with
  | fault hFirst _ _ =>
      exact absurd hFirst.isFault (hSound _)
  | unbalanced _ hNonzero _ _ =>
      have hOk :=
        (exec_take (Nat.le_refl _) (fun k _ => hSound k)
          hNonzero).1
      rw [List.take_length, hExec] at hOk
      cases hOk
  | division _ _ _ _ _ => exact ⟨_, _, _, rfl⟩

end Execution

/- Trees with values add their values to the stack. -/
theorem exec_extendAll
    {p : Program}
    {stack vs : List Int32}
    {es : List Expr}
    (hExec : Machine.exec 0 p ⟨[]⟩ = (.ok (), ⟨stack⟩))
    (hValues : es.map Expr.eval = vs.map .ok) :
    Machine.exec 0 (extendAll es p) ⟨[]⟩ =
      (.ok (), ⟨vs.reverse ++ stack⟩) := by
  induction es generalizing p stack vs with
  | nil =>
      cases vs with
      | nil => exact hExec
      | cons v vs => cases hValues
  | cons e es ih =>
      cases vs with
      | nil => cases hValues
      | cons v vs =>
          rw [List.map_cons, List.map_cons,
            List.cons.injEq] at hValues
          rcases hValues with ⟨hEval, hRest⟩
          rcases Expr.exists_code_of_eval hEval with
            ⟨c, hCode⟩
          have hNext :
              Machine.exec 0 (p.extend e).2 ⟨[]⟩ =
                (.ok (), ⟨v :: stack⟩) := by
            rw [extend_snd, e.program_emit_of_code hCode,
              Machine.exec_append_of_ok hExec]
            exact Expr.exec_code_of_eval_eq_ok hCode hEval
              _ ⟨stack⟩
          have hAll := ih hNext hRest
          rw [List.reverse_cons, List.append_assoc]
          exact hAll

/-
  A tree only appends to a program, and if it succeeds it
  appends the program it has alone. Whatever trees an empty
  program was extended by, and whether or not they were at
  fault, no instruction of it is unknown or lacks operands,
  and its execution can only fail to divide. If all trees
  have values, just these are left on the stack, with that
  of the last tree on top.
-/
theorem extendAll_is_safe
    (es : List Expr) :
    (∀ (p : Program) (e : Expr),
        ∃ added,
          (p.extend e).2 = p ++ added ∧
            ((p.extend e).1 = .ok () ↔ e.code = .ok added) ∧
            ∀ f, (p.extend e).1 = .error f ↔
              e.code = .error f) ∧
      (∀ n, ¬ (extendAll es []).IsFault n) ∧
      (∀ f m,
        Machine.exec 0 (extendAll es []) ⟨[]⟩ =
            (.error f, m) →
          ∃ left n i,
            f = ⟨.arithmetic ⟨.div, left, 0⟩,
              [.instruction n i]⟩) ∧
      ∀ vs : List Int32, es.map Expr.eval = vs.map .ok →
        Machine.exec 0 (extendAll es []) ⟨[]⟩ =
          (.ok (), ⟨vs.reverse⟩) := by
  rcases exists_stacks_extendAll .nil es with
    ⟨ds, hStacks⟩
  refine ⟨?_, hStacks.not_isFault, ?_, ?_⟩
  · intro p e
    exact ⟨_, extend_snd p e, extend_eq_ok_iff,
      fun f => extend_eq_error_iff⟩
  · intro f m hExec
    exact exec_error_of_sound hStacks.not_isFault hExec
  · intro vs hValues
    have hAll := exec_extendAll (p := []) rfl hValues
    rwa [List.append_nil] at hAll

/-
  A generator that was given `9 / 2` and `-7` leaves both
  values. One that was given a sum without right operand and
  then `1 / 0` fails to divide behind what the sum left.
-/
theorem extendAll_quotient_behind_fault :
    let es : List Expr :=
      [.binary .div (.number 9) (.number 2),
        .unary .minus (.number 7)]
    let ds : List Expr :=
      [.binary .add (.number 5) .missing,
        .binary .div (.number 1) (.number 0)]
    es.map Expr.eval = [.ok 4, .ok (-7)] ∧
      Machine.exec 0 (extendAll es []) ⟨[]⟩ =
        (.ok (), ⟨[-7, 4]⟩) ∧
      extendAll ds [] =
        [.ofNumber 5, .ofNumber 1, .ofNumber 0,
          .ofOpcode .div] ∧
      ∃ f m left n i,
        Machine.exec 0 (extendAll ds []) ⟨[]⟩ =
            (.error f, m) ∧
          f = ⟨.arithmetic ⟨.div, left, 0⟩,
            [.instruction n i]⟩ := by
  intro es ds
  have hExec :
      Machine.exec 0 (extendAll ds []) ⟨[]⟩ =
        (.error ⟨.arithmetic ⟨.div, 1, 0⟩,
          [.instruction 3 (.ofOpcode .div)]⟩, ⟨[5]⟩) := rfl
  have hDivision := (extendAll_is_safe ds).2.2.1 _ _ hExec
  rcases hDivision with ⟨left, n, i, hFailure⟩
  exact ⟨rfl, (extendAll_is_safe es).2.2.2 [4, -7] rfl, rfl,
    _, _, left, n, i, hExec, hFailure⟩

end Program

end ExprCompiler
