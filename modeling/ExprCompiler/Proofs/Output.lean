import ExprCompiler.Proofs.AssemblyCorrectness
import ExprCompiler.Proofs.CodeCorrectness
import ExprCompiler.Proofs.Compiling
import ExprCompiler.Proofs.LlvmDrafts
import ExprCompiler.Proofs.PostfixCode

/-
  What is put out for a line.

  Key definitions include:
    * `Compilation.Renders`

  Main declarations:
    * `Assembly.failure_body_eq_none`
    * `Expr.exists_llvm_of_isLegal`
    * `Compilation.emit_cases`
    * `emit_all_or_nothing`

  Whatever compiles has assembly and an LLVM function, and
  it has a value unless it divides by zero. So a line is put
  out as a whole or not at all.
-/

------------------------------------------------------------
-- Back Ends
------------------------------------------------------------

namespace ExprCompiler

/- A known opcode can be put out. -/
theorem Instruction.exists_assembly_of_isKnown
    {i : Instruction}
    (hKnown : i.opcode.IsKnown)
    (n : Nat) :
    ∃ chunk, i.assembly n = .ok chunk := by
  unfold assembly
  cases hOpcode : i.opcode with
  | unknown code h =>
      rw [hOpcode] at hKnown
      cases hKnown
  | _ => exact ⟨_, rfl⟩

/- A program of known opcodes can be put out to its end. -/
theorem Assembly.failure_body_eq_none
    {p : Program}
    (hKnown : ∀ i ∈ p, i.opcode.IsKnown)
    (n : Nat) :
    (body n p).failure = none := by
  induction p generalizing n with
  | nil => rfl
  | cons i p ih =>
      rw [List.forall_mem_cons] at hKnown
      rcases Instruction.exists_assembly_of_isKnown
          hKnown.1 n with
        ⟨chunk, hChunk⟩
      rw [body_cons_of_ok hChunk]
      exact ih hKnown.2 _

theorem Expr.exists_llvm_of_isLegal
    {e : Expr}
    (hLegal : e.IsLegal) :
    ∃ f, e.llvm = .ok f := by
  rcases exists_load_of_isLegal hLegal {} with
    ⟨v, d, hLoad⟩
  refine ⟨d.finish v, ?_⟩
  rw [llvm, hLoad]
  rfl

------------------------------------------------------------
-- Output of Compiled Lines
------------------------------------------------------------

namespace Compilation

/- The whole text of a compiled line for a target. -/
inductive Renders
    (c : Compilation) :
    Target → String → Prop
  | asm
      (hWhole : (c.program.assembly 0).failure = none) :
      Renders c .asm
        (String.join ((c.program.assembly 0).lines.map
          Assembly.Line.render))
  | llvm
      {f : Llvm.Function}
      (hFunction : c.tree.llvm = .ok f) :
      Renders c .llvm f.render
  | eval
      {v : Int32}
      (hValue : c.tree.eval = .ok v) :
      Renders c .eval (toString v.toInt ++ "\n")

/-
  The whole text goes to the sink or nothing does, and the
  latter only for want of a value or of a known target.
-/
theorem emit_cases
    {c : Compilation}
    (hCode : c.tree.code = .ok c.program)
    (target : Target)
    {sink : Sink}
    (hRoom : sink.room = none) :
    (∃ text, c.Renders target text ∧
        (c.emit target sink).1 = .ok () ∧
        (c.emit target sink).2.output =
          sink.output ++ text) ∨
      (∃ f, c.emit target sink = (.error f, sink) ∧
        ((target = .eval ∧ ∃ a,
            c.tree.eval = .error ⟨.arithmetic a, []⟩ ∧
              f.cause = .arithmetic a) ∨
          (target = .unknown ∧
            f = ⟨.unsupportedTarget, []⟩))) := by
  have hLegal := Expr.isLegal_of_code_eq_ok hCode
  have hSome : sink.room ≠ some 0 := by
    simp [hRoom]
  cases target with
  | asm =>
      have hWhole :
          (c.program.assembly 0).failure = none := by
        rw [Assembly.failure_assembly]
        exact Assembly.failure_body_eq_none
          (Program.isPostfix_of_code hCode).known 0
      refine .inl ⟨_, .asm hWhole, ?_⟩
      simp [emit, emitAsm, Assembly.Writer.write_eq hRoom,
        hWhole, Except.mapError, Sink.output]
  | llvm =>
      rcases Expr.exists_llvm_of_isLegal hLegal with
        ⟨f, hFunction⟩
      refine .inl ⟨_, .llvm hFunction, ?_⟩
      simpa [emit, emitLlvm, hFunction] using
        Sink.write_of_room hSome f.render
  | eval =>
      cases hEval : c.tree.eval with
      | ok v =>
          have hRun := Expr.run_code_of_eval_eq_ok hCode hEval
          refine .inl ⟨_, .eval hEval, ?_⟩
          simpa [emit, emitValue, hRun] using
            Sink.write_of_room hSome
              (toString v.toInt ++ "\n")
      | error f =>
          rcases Expr.eval_error_of_isLegal hLegal hEval with
            ⟨left, rfl⟩
          rcases Expr.run_code_of_eval_eq_error hCode
              hEval with
            ⟨i, _, hRun⟩
          have hEmit :
              c.emit .eval sink =
                (.error ⟨.arithmetic ⟨.div, left, 0⟩,
                  [.stage .eval,
                    .instruction i (.ofOpcode .div)]⟩,
                  sink) := by
            simp only [emit, emitValue, hRun,
              Failure.within]
          exact .inr ⟨_, hEmit, .inl ⟨rfl, _, rfl, rfl⟩⟩
  | unknown => exact .inr ⟨_, rfl, .inr ⟨rfl, rfl⟩⟩

end Compilation

------------------------------------------------------------
-- Output of Lines
------------------------------------------------------------

/-
  A line does not compile, or it is put out, or it compiles
  and is not put out.
-/
theorem emit_line_cases
    (policy : OverflowPolicy)
    (line : Text)
    (target : Target)
    {sink : Sink}
    (hRoom : sink.room = none) :
    let emitted := emit ⟨target, policy⟩ line sink
    (∃ f, (compile policy line).1 = .error f ∧
        emitted.outcome = .error f ∧
        emitted.sink = sink) ∨
      (∃ c text, (compile policy line).1 = .ok c ∧
        c.Renders target text ∧
        emitted.outcome = .ok () ∧
        emitted.sink.output = sink.output ++ text) ∨
      (∃ c f, (compile policy line).1 = .ok c ∧
        emitted.outcome = .error f ∧
        emitted.sink = sink ∧
        ((target = .eval ∧ ∃ a,
            c.tree.eval = .error ⟨.arithmetic a, []⟩ ∧
              f.cause = .arithmetic a) ∨
          (target = .unknown ∧
            f = ⟨.unsupportedTarget, []⟩))) := by
  intro emitted
  cases hCompile : (compile policy line).1 with
  | error f =>
      exact .inl ⟨f, rfl,
        emit_of_compile_eq_error hCompile target sink⟩
  | ok c =>
      right
      rcases emit_of_compile_eq_ok hCompile target sink with
        ⟨hOutcome, hSink⟩
      rcases compile_eq_ok_iff.mp hCompile with
        ⟨ts, e, p, _, _, hCode, rfl⟩
      rcases Compilation.emit_cases
          (c := ⟨line, ts, e, p⟩) hCode target hRoom with
        ⟨text, hText, hOk, hOutput⟩ | ⟨f, hEmit, hWhy⟩
      · exact .inl ⟨_, text, rfl, hText,
          hOutcome.trans hOk,
          (congrArg Sink.output hSink).trans hOutput⟩
      · rw [hEmit] at hOutcome hSink
        exact .inr ⟨_, f, rfl, hOutcome, hSink, hWhy⟩

/-
  To a sink without a limit, assembly and LLVM are put out
  for exactly the lines that compile, and a value for those
  of them that do not divide by zero. The text is put out as
  a whole, or nothing is. A failure is that of compiling the
  line or, with a value asked for, of arithmetic.
-/
theorem emit_all_or_nothing
    (policy : OverflowPolicy)
    (line : Text)
    {sink : Sink}
    (hRoom : sink.room = none) :
    (∀ target, target = .asm ∨ target = .llvm →
        ((emit ⟨target, policy⟩ line sink).outcome = .ok () ↔
          ∃ c, (compile policy line).1 = .ok c)) ∧
      ((emit ⟨.eval, policy⟩ line sink).outcome = .ok () ↔
        ∃ c, (compile policy line).1 = .ok c ∧
          ¬ ∃ f a, c.tree.eval = .error f ∧
            f.cause = .arithmetic a) ∧
      (∀ target,
        (emit ⟨target, policy⟩ line sink).outcome = .ok () →
          ∃ c text, (compile policy line).1 = .ok c ∧
            c.Renders target text ∧
            (emit ⟨target, policy⟩ line sink).sink.output =
              sink.output ++ text) ∧
      ∀ target f,
        (emit ⟨target, policy⟩ line sink).outcome =
            .error f →
          (emit ⟨target, policy⟩ line sink).sink = sink ∧
            (target ≠ .unknown →
              (compile policy line).1 = .error f ∨
                target = .eval ∧
                  ∃ a, f.cause = .arithmetic a) ∧
            f.cause ≠ .unknownOp ∧
            f.cause ≠ .stackUnderflow ∧
            f.cause ≠ .unbalancedStack := by
  refine ⟨?_, ?_, ?_, ?_⟩
  · intro target hTarget
    rcases emit_line_cases policy line target hRoom with
      ⟨f, hCompile, hOutcome, _⟩ |
        ⟨c, _, hCompile, _, hOutcome, _⟩ |
        ⟨_, _, _, _, _, ⟨rfl, _⟩ | ⟨rfl, _⟩⟩
    · simp [hCompile, hOutcome]
    · simp [hCompile, hOutcome]
    · simp at hTarget
    · simp at hTarget
  · rcases emit_line_cases policy line .eval hRoom with
      ⟨f, hCompile, hOutcome, _⟩ |
        ⟨c, _, hCompile, hText, hOutcome, _⟩ |
        ⟨c, f, hCompile, hOutcome, _,
          ⟨_, a, hEval, _⟩ | ⟨hOther, _⟩⟩
    · simp [hCompile, hOutcome]
    · cases hText with
      | eval hValue => simp [hCompile, hOutcome, hValue]
    · simp [hCompile, hOutcome, hEval]
    · cases hOther
  · intro target hOk
    rcases emit_line_cases policy line target hRoom with
      ⟨f, _, hOutcome, _⟩ |
        ⟨c, text, hCompile, hText, _, hOutput⟩ |
        ⟨_, f, _, hOutcome, _⟩
    · rw [hOk] at hOutcome
      cases hOutcome
    · exact ⟨c, text, hCompile, hText, hOutput⟩
    · rw [hOk] at hOutcome
      cases hOutcome
  · intro target f hError
    rcases emit_line_cases policy line target hRoom with
      ⟨f', hCompile, hOutcome, hSink⟩ |
        ⟨_, _, _, _, hOutcome, _⟩ |
        ⟨_, f', _, hOutcome, hSink, hWhy⟩
    · rw [hError] at hOutcome
      cases hOutcome
      refine ⟨hSink, fun _ => .inl hCompile, ?_⟩
      rcases compile_eq_error_iff.mp hCompile with
        ⟨e, _, rfl⟩ | ⟨_, e, _, _, rfl⟩
      · simp
      · simp
    · rw [hError] at hOutcome
      cases hOutcome
    · rw [hError] at hOutcome
      cases hOutcome
      rcases hWhy with ⟨hEval, a, _, hCause⟩ | ⟨hOther, rfl⟩
      · refine ⟨hSink,
          fun _ => .inr ⟨hEval, a, hCause⟩, ?_⟩
        simp [hCause]
      · refine ⟨hSink, fun hKnown => absurd hOther hKnown,
          ?_⟩
        simp

/-
  The line `6/(2-2)` compiles, but has no value, and so it
  leaves the output as it was.
-/
theorem emit_nothing_of_zero_difference :
    let line := Text.ofString "6/(2-2)"
    let sink : Sink := { written := ["3\n"] }
    sink.room = none ∧
      (compile .check line).1.isOk = true ∧
      (emit ⟨.asm, .check⟩ line sink).outcome = .ok () ∧
      (emit ⟨.eval, .check⟩ line sink).sink = sink := by
  intro line sink
  have hRoom : sink.room = none := rfl
  rcases emit_all_or_nothing .check line hRoom with
    ⟨hCode, _, _, hError⟩
  have hOk : (compile .check line).1.isOk = true := by
    decide +kernel
  have hOutcome :
      (emit ⟨.eval, .check⟩ line sink).outcome =
        .error ⟨.arithmetic ⟨.div, 6, 0⟩,
          [.stage .eval,
            .instruction 4 (.ofOpcode .div)]⟩ := by
    decide +kernel
  refine ⟨hRoom, hOk, (hCode .asm (.inl rfl)).mpr ?_,
    (hError .eval _ hOutcome).1⟩
  cases hCompile : (compile .check line).1 with
  | ok c => exact ⟨c, rfl⟩
  | error f =>
      rw [hCompile] at hOk
      cases hOk

end ExprCompiler
