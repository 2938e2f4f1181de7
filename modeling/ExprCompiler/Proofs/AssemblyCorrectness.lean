import ExprCompiler.Proofs.AssemblyInstructions

/-
  Assembly computes what the stack machine computes.

  Key definitions include:
    * `Assembly.Processor.InFront`

  Main declarations:
    * `Assembly.Processor.continues_of_step`
    * `Assembly.Processor.InFront.continues_of_exec`
    * `Assembly.Processor.InFront.reaches_abort_of_exec`
    * `Assembly.Writer.write_eq`
    * `Assembly.Writer.program?_output`
    * `Program.assembly_computes_run`

  Each instruction of the machine is matched by the lines
  written for it, and a program by the lines of its
  instructions in a row. An unknown opcode leaves a listing
  without a place to abort. What is executed is what the
  written text is read as.
-/

------------------------------------------------------------
-- Lines of an Instruction
------------------------------------------------------------

namespace ExprCompiler

/- What the machine carries out can be put out. -/
theorem Instruction.exists_assembly_of_step
    {i : Instruction}
    {m m' : Machine}
    (hStep : m.step i = (.ok (), m'))
    (n : Nat) :
    ∃ chunk, i.assembly n = .ok chunk := by
  unfold Machine.step at hStep
  unfold assembly
  cases hOpcode : i.opcode with
  | unknown code h =>
      rw [hOpcode] at hStep
      cases hStep
  | _ => exact ⟨_, rfl⟩

namespace Assembly

theorem body_cons_of_ok
    {n : Nat}
    {i : Instruction}
    {chunk : List Line}
    (hAssembly : i.assembly n = .ok chunk)
    (p : Program) :
    body n (i :: p) =
      { body (n + i.opcode.divisions) p with
        lines :=
          chunk ++
            (body (n + i.opcode.divisions) p).lines } := by
  rw [body, hAssembly]

/- The numbers of divisions grow. -/
theorem le_divisions_body
    (n : Nat)
    (p : Program) :
    n ≤ (body n p).divisions := by
  induction p generalizing n with
  | nil => exact Nat.le_refl n
  | cons i rest ih =>
      cases hAssembly : i.assembly n with
      | error f =>
          have hCut : (body n (i :: rest)).divisions = n := by
            rw [body, hAssembly]
          exact Nat.le_of_eq hCut.symm
      | ok chunk =>
          rw [body_cons_of_ok hAssembly]
          exact Nat.le_trans (Nat.le_add_right _ _)
            (ih (n + i.opcode.divisions))

namespace Processor

open Transition

section Simulation

variable {program rest before : List Line}
variable {s : Processor}
variable {m m' : Machine}
variable {frame : List Word}
variable {n : Nat}

/- The lines of an instruction do what the machine does. -/
theorem continues_of_step
    {i : Instruction}
    {chunk : List Line}
    (hStep : m.step i = (.ok (), m'))
    (hAssembly : i.assembly n = .ok chunk)
    (hProgram : program = before ++ (chunk ++ rest))
    (hBelow : DefinesBelow n before)
    (hCode : s.code = chunk ++ rest)
    (hHolds : s.Holds m.stack frame) :
    s.Continues program rest m'.stack frame := by
  rcases Machine.step_ok_cases hStep with
    ⟨hPush, hStack'⟩ |
    ⟨op, v, vs, result, hOp, hStack, hApply, hStack'⟩ |
    ⟨op, left, right, vs, result, hOp, hStack, hApply,
      hStack'⟩
  · rw [Instruction.assembly, hPush] at hAssembly
    cases hAssembly
    rw [hStack']
    exact continues_pushNumber hCode hHolds
  · rw [hStack] at hHolds
    rw [hStack']
    exact continues_unary hOp hAssembly hApply hCode hHolds
  · rw [hStack] at hHolds
    rw [hStack']
    unfold Instruction.assembly at hAssembly
    cases op with
    | add | sub | mul =>
        rw [← Option.some.inj hOp] at hAssembly
        cases hAssembly
        cases hApply
        exact continues_arithmetic hCode hHolds
    | div =>
        rw [← Option.some.inj hOp] at hAssembly
        cases hAssembly
        rcases divide_eq_ok_iff.mp hApply with
          ⟨hZero, rfl⟩
        exact continues_division hProgram hBelow hZero
          hCode hHolds
    | unknown symbol h => cases hOp

------------------------------------------------------------
-- Lines of a Program
------------------------------------------------------------

/-
  The processor is in front of the lines of a program, and
  their labels are not defined earlier.
-/
structure InFront
    (program : List Line)
    (n : Nat)
    (p : Program)
    (rest : List Line)
    (vs : List Int32)
    (frame : List Word)
    (s : Processor) :
    Prop where
  lines :
    ∃ before,
      program = before ++ ((body n p).lines ++ rest) ∧
        DefinesBelow n before
  code : s.code = (body n p).lines ++ rest
  holds : s.Holds vs frame

/- An instruction that is carried out leaves the others. -/
theorem InFront.exists_next
    {i : Instruction}
    {p : Program}
    (hFront : s.InFront program n (i :: p) rest m.stack frame)
    (hStep : m.step i = (.ok (), m')) :
    (∃ lines,
      body n (i :: p) =
        { body (n + i.opcode.divisions) p with
          lines := lines }) ∧
      ∃ t, Reaches (step program) s t ∧
        t.InFront program (n + i.opcode.divisions) p rest
          m'.stack frame := by
  rcases hFront with ⟨⟨before, hProgram, hBelow⟩, hCode, hHolds⟩
  rcases i.exists_assembly_of_step hStep n with
    ⟨chunk, hAssembly⟩
  have hBody := body_cons_of_ok hAssembly p
  rw [hBody, List.append_assoc] at hProgram hCode
  rcases continues_of_step hStep hAssembly hProgram hBelow
      hCode hHolds with
    ⟨t, hReaches, hCode', hHolds'⟩
  refine ⟨⟨_, hBody⟩, t, hReaches, ⟨before ++ chunk, ?_,
    hBelow.append_assembly hAssembly⟩, hCode', hHolds'⟩
  rw [hProgram, List.append_assoc]

/- The lines of a program do what the machine does. -/
theorem InFront.continues_of_exec
    {p : Program}
    {index : Nat}
    (hFront : s.InFront program n p rest m.stack frame)
    (hExec : m.exec index p = (.ok (), m')) :
    (body n p).failure = none ∧
      s.Continues program rest m'.stack frame := by
  induction p generalizing s m n index with
  | nil =>
      cases hExec
      exact ⟨rfl, s, .refl s, hFront.code, hFront.holds⟩
  | cons i p ih =>
      rcases hStep : m.step i with ⟨f | _, next⟩
      · simp [Machine.exec, hStep] at hExec
      · simp only [Machine.exec, hStep] at hExec
        rcases hFront.exists_next hStep with
          ⟨⟨lines, hBody⟩, t, hReaches, hNext⟩
        rcases ih hNext hExec with
          ⟨hNone, t', hRest, hEnd⟩
        rw [hBody]
        exact ⟨hNone, t', hReaches.trans hRest, hEnd⟩

/-
  Where the machine fails to divide, the lines of the
  program jump to the place to abort.
-/
theorem InFront.reaches_abort_of_exec
    {p : Program}
    {index : Nat}
    {f : Failure}
    {a : ArithmeticError}
    (hFront : s.InFront program n p rest m.stack frame)
    (hExec : m.exec index p = (.error f, m'))
    (hCause : f.cause = .arithmetic a) :
    n < (body n p).divisions ∧
      ∃ t, Reaches (step program) s t ∧
        t.code =
          linesFrom Label.divisionByZero.name program := by
  induction p generalizing s m n index with
  | nil => cases hExec
  | cons i p ih =>
      rcases hStep : m.step i with ⟨f' | _, next⟩
      · simp only [Machine.exec, hStep] at hExec
        cases hExec
        rcases Machine.step_arithmetic_cases hStep hCause with
          ⟨hDiv, left, vs, hStack⟩
        have hAssembly : i.assembly n = .ok (division n) := by
          rw [Instruction.assembly, hDiv]
        have hBody := body_cons_of_ok hAssembly p
        rw [hDiv] at hBody
        have hLess : n < (body (n + 1) p).divisions :=
          le_divisions_body (n + 1) p
        have hCode := hFront.code
        have hHolds := hFront.holds
        rw [hBody, List.append_assoc] at hCode
        rw [hStack] at hHolds
        rw [hBody]
        exact ⟨hLess,
          reaches_abort_of_zero program hCode hHolds⟩
      · simp only [Machine.exec, hStep] at hExec
        rcases hFront.exists_next hStep with
          ⟨⟨lines, hBody⟩, t, hReaches, hNext⟩
        rcases ih hNext hExec with
          ⟨hLess, t', hRest, hAbort⟩
        rw [hBody]
        exact ⟨Nat.lt_of_le_of_lt (Nat.le_add_right _ _) hLess,
          t', hReaches.trans hRest, hAbort⟩

end Simulation

end Processor

------------------------------------------------------------
-- Listings
------------------------------------------------------------

/- The lines behind the instructions of a program. -/
def Listing.ending
    (out : Listing) :
    List Line :=
  match out.failure with
  | some _ => []
  | none => footer out.divisions

theorem failure_assembly
    (n : Nat)
    (p : Program) :
    (p.assembly n).failure = (body n p).failure := by
  unfold Program.assembly
  cases hFailure : (body n p).failure with
  | none => simp [hFailure]
  | some f => simp [hFailure]

theorem lines_assembly
    (n : Nat)
    (p : Program) :
    (p.assembly n).lines =
      header ++ ((body n p).lines ++ (body n p).ending) := by
  unfold Program.assembly Listing.ending
  cases hFailure : (body n p).failure with
  | none => simp [hFailure]
  | some f => simp [hFailure]

/- No program defines the place to abort itself. -/
theorem divisionByZero_notMem
    (p : Program) :
    Line.label .divisionByZero ∉
      header ++ (body 0 p).lines := by
  have hBelow :
      DefinesBelow (body 0 p).divisions
        (header ++ (body 0 p).lines) :=
    definesBelow_header.append_body
  exact hBelow.divisionByZero_notMem

/- A listing with a division has a place to abort. -/
theorem linesFrom_divisionByZero
    {p : Program}
    (hNone : (body 0 p).failure = none)
    (hDivisions : 0 < (body 0 p).divisions) :
    linesFrom Label.divisionByZero.name
        (p.assembly 0).lines =
      [.label .divisionByZero, .instr .callAbort] := by
  have hNew :
      Line.label .divisionByZero ∉
        header ++ (body 0 p).lines ++
          [.instr (.pop .a), .instr .ret] := by
    simpa using divisionByZero_notMem p
  have hJump := linesFrom_label hNew [.instr .callAbort]
  rw [lines_assembly, Listing.ending, hNone, footer,
    if_pos hDivisions]
  simpa using hJump

/- A listing that was cut short has no place to abort. -/
theorem linesFrom_divisionByZero_of_failure
    {p : Program}
    {f : Failure}
    (hSome : (body 0 p).failure = some f) :
    linesFrom Label.divisionByZero.name
        (p.assembly 0).lines = [] := by
  apply linesFrom_eq_nil
  rw [lines_assembly, Listing.ending, hSome]
  simpa using divisionByZero_notMem p

------------------------------------------------------------
-- Execution of a Listing
------------------------------------------------------------

namespace Processor

open Transition

section Listings

variable {p : Program}
variable {returnAddress : Word} {frame : List Word}
variable {s : Processor}

/- Execution comes to the first instruction. -/
theorem AtMain.exists_inFront
    (hMain :
      s.AtMain (p.assembly 0).lines returnAddress frame) :
    ∃ t,
      s.step (p.assembly 0).lines = .next t ∧
        t.InFront (p.assembly 0).lines 0 p (body 0 p).ending
          [] (returnAddress :: frame) := by
  have hCode :
      s.code =
        .mainLabel ::
          ((body 0 p).lines ++ (body 0 p).ending) := by
    rw [hMain.code, lines_assembly, linesFrom_main]
  refine ⟨{ s with
    code := (body 0 p).lines ++ (body 0 p).ending },
    ?_, ?_, rfl, [], hMain.stack, rfl⟩
  · rw [step, hCode]
  · exact ⟨header, lines_assembly 0 p, definesBelow_header⟩

/- What the machine returns is returned. -/
theorem ends_returned
    {v : Int32}
    (hRun : p.run = .ok v)
    (hMain :
      s.AtMain (p.assembly 0).lines returnAddress frame) :
    (p.assembly 0).failure = none ∧
      ∃ t,
        Ends (step (p.assembly 0).lines) s t .returned ∧
          t.stack = returnAddress :: frame ∧
          t.a.low = v := by
  rcases hMain.exists_inFront with ⟨s', hStep, hFront⟩
  have hExec := Program.run_eq_ok_iff.mp hRun
  rcases hFront.continues_of_exec hExec with
    ⟨hNone, t, hReaches, hEnd, hResult⟩
  refine ⟨(failure_assembly 0 p).trans hNone, ?_⟩
  rcases hResult.exists_slot with ⟨w, ws, hStack, hTop, hNil⟩
  rw [List.map_eq_nil_iff] at hNil
  subst hNil
  rw [Listing.ending, hNone] at hEnd
  rcases t with ⟨code, a, di, d, zero, stack⟩
  subst hEnd hStack
  exact ⟨_, ⟨.head hStep (hReaches.trans (.single rfl)), rfl⟩,
    rfl, hTop⟩

/- Where the machine fails to divide, a jump is taken. -/
theorem AtMain.reaches_abort
    {f : Failure}
    {a : ArithmeticError}
    (hMain :
      s.AtMain (p.assembly 0).lines returnAddress frame)
    (hRun : p.run = .error f)
    (hCause : f.cause = .arithmetic a) :
    0 < (body 0 p).divisions ∧
      ∃ t, Reaches (step (p.assembly 0).lines) s t ∧
        t.code =
          linesFrom Label.divisionByZero.name
            (p.assembly 0).lines := by
  rcases hMain.exists_inFront with ⟨s', hStep, hFront⟩
  rcases Program.run_error_cases hRun with
    ⟨m, hExec⟩ | hUnbalanced
  · rcases hFront.reaches_abort_of_exec hExec hCause with
      ⟨hDivisions, t, hReaches, hAbort⟩
    exact ⟨hDivisions, t, .head hStep hReaches, hAbort⟩
  · rw [hCause] at hUnbalanced
    cases hUnbalanced

/- In a whole listing the jump leads to the abort. -/
theorem ends_aborted
    {f : Failure}
    {a : ArithmeticError}
    (hRun : p.run = .error f)
    (hCause : f.cause = .arithmetic a)
    (hWhole : (p.assembly 0).failure = none)
    (hMain :
      s.AtMain (p.assembly 0).lines returnAddress frame) :
    ∃ t, Ends (step (p.assembly 0).lines) s t .aborted := by
  rcases hMain.reaches_abort hRun hCause with
    ⟨hDivisions, t, hReaches, hCode⟩
  rw [failure_assembly] at hWhole
  rw [linesFrom_divisionByZero hWhole hDivisions] at hCode
  rcases t with ⟨code, a, di, d, zero, stack⟩
  subst hCode
  exact ⟨_, hReaches.trans (.single rfl), rfl⟩

/- In a listing that was cut short it leads nowhere. -/
theorem ends_stuck
    {f unknown : Failure}
    {a : ArithmeticError}
    (hRun : p.run = .error f)
    (hCause : f.cause = .arithmetic a)
    (hCut : (p.assembly 0).failure = some unknown)
    (hMain :
      s.AtMain (p.assembly 0).lines returnAddress frame) :
    ∃ t, Ends (step (p.assembly 0).lines) s t .stuck := by
  rcases hMain.reaches_abort hRun hCause with
    ⟨_, t, hReaches, hCode⟩
  rw [failure_assembly] at hCut
  rw [linesFrom_divisionByZero_of_failure hCut] at hCode
  refine ⟨t, hReaches, ?_⟩
  rw [step, hCode]

end Listings

end Processor

------------------------------------------------------------
-- Output
------------------------------------------------------------

end Assembly

/- A sink without a limit takes everything. -/
theorem Sink.writeAll_of_room_eq_none
    {s : Sink}
    (hRoom : s.room = none)
    (pieces : List String) :
    s.writeAll pieces =
      (.ok (), { s with
        written := pieces.reverse ++ s.written }) := by
  induction pieces generalizing s with
  | nil => rfl
  | cons piece rest ih =>
      simp only [writeAll, write, hRoom]
      rw [ih rfl]
      simp

namespace Assembly

namespace Writer

/- A fresh writer puts out the listing as far as it goes. -/
theorem write_eq
    {sink : Sink}
    (hRoom : sink.room = none)
    (p : Program) :
    write p { sink := sink } =
      (match (p.assembly 0).failure with
        | some f => .error f
        | none => .ok (),
       { sink :=
           { sink with
             written :=
               ((p.assembly 0).lines.map
                 Line.render).reverse ++ sink.written }
         divisions := (p.assembly 0).divisions }) := by
  have hSink :=
    Sink.writeAll_of_room_eq_none hRoom
      ((p.assembly 0).lines.map Line.render)
  simp only [write, put, hSink]
  cases (p.assembly 0).failure with
  | none => simp
  | some f => simp

theorem output_write
    (p : Program) :
    (write p { sink := {} }).2.sink.output =
      String.join ((p.assembly 0).lines.map Line.render) := by
  rw [write_eq rfl, Sink.output, List.append_nil,
    List.reverse_reverse]

/- What is put out is read as the lines of the listing. -/
theorem program?_output
    (p : Program) :
    program? (write p { sink := {} }).2.sink.output.toList =
      some (p.assembly 0).lines := by
  rw [output_write]
  apply program?_join
  rw [lines_assembly]
  rfl

theorem write_eq_ok_iff
    (p : Program) :
    (write p { sink := {} }).1 = .ok () ↔
      (p.assembly 0).failure = none := by
  rw [write_eq rfl]
  cases (p.assembly 0).failure with
  | none => simp
  | some f => simp

end Writer

end Assembly

------------------------------------------------------------
-- Correctness
------------------------------------------------------------

namespace Program

open Assembly Transition

/-
  The output for a program can be read as assembly. Called
  at its `main`, it returns what the machine returns, with
  the return address on top of the stack. Where the machine
  fails to divide, execution aborts if the output is whole,
  and only then. No division faults in either case.
-/
theorem assembly_computes_run
    (p : Program) :
    let out := Writer.write p { sink := {} }
    ∃ program,
      program? out.2.sink.output.toList = some program ∧
        ∀ returnAddress frame (s : Processor),
          s.AtMain program returnAddress frame →
          (∀ v, p.run = .ok v →
            out.1 = .ok () ∧
              ∃ t,
                Ends (Processor.step program) s t
                    .returned ∧
                  t.stack = returnAddress :: frame ∧
                  t.a.low = v) ∧
          (∀ f a, p.run = .error f →
            f.cause = .arithmetic a →
            ((∃ t,
                Ends (Processor.step program) s t
                  .aborted) ↔
              out.1 = .ok ())) ∧
          ((∃ v, p.run = .ok v) ∨
              (∃ f a, p.run = .error f ∧
                f.cause = .arithmetic a) →
            ∀ t, ¬ Ends (Processor.step program) s t
              .divisionFault) := by
  intro out
  have hWhole :
      out.1 = .ok () ↔ (p.assembly 0).failure = none :=
    Writer.write_eq_ok_iff p
  refine ⟨(p.assembly 0).lines, Writer.program?_output p, ?_⟩
  intro returnAddress frame s hMain
  rw [hWhole]
  refine ⟨?_, ?_, ?_⟩
  · intro v hRun
    exact Processor.ends_returned hRun hMain
  · intro f a hRun hCause
    constructor
    · rintro ⟨t, hAborted⟩
      cases hFailure : (p.assembly 0).failure with
      | none => rfl
      | some unknown =>
          rcases Processor.ends_stuck hRun hCause hFailure
              hMain with
            ⟨t', hStuck⟩
          cases (hAborted.unique hStuck).2
    · intro hNone
      exact Processor.ends_aborted hRun hCause hNone hMain
  · rintro (⟨v, hRun⟩ | ⟨f, a, hRun, hCause⟩) t hFault
    · rcases Processor.ends_returned hRun hMain with
        ⟨_, t', hReturned, _⟩
      cases (hFault.unique hReturned).2
    · cases hFailure : (p.assembly 0).failure with
      | none =>
          rcases Processor.ends_aborted hRun hCause hFailure
              hMain with
            ⟨t', hAborted⟩
          cases (hFault.unique hAborted).2
      | some unknown =>
          rcases Processor.ends_stuck hRun hCause hFailure
              hMain with
            ⟨t', hStuck⟩
          cases (hFault.unique hStuck).2

/- The minimum divided by minus one is the minimum. -/
theorem assembly_computes_run_minimum :
    let p : Program :=
      [.ofNumber 0x80000000, .ofNumber 0xffffffff,
        .ofOpcode .div]
    let out := Writer.write p { sink := {} }
    p.run = .ok Int32.minValue ∧
      ∃ program,
        program? out.2.sink.output.toList = some program ∧
          let s : Processor :=
            ⟨linesFrom "main" program, 0, 0, 0, none, [0x1000]⟩
          s.AtMain program 0x1000 [] ∧
            ∃ t,
              Ends (Processor.step program) s t .returned ∧
                t.stack = [0x1000] ∧
                t.a.low = Int32.minValue := by
  intro p out
  have hRun : p.run = .ok Int32.minValue := by
    rfl
  rcases assembly_computes_run p with
    ⟨program, hRead, hComputes⟩
  refine ⟨hRun, program, hRead, ?_⟩
  intro s
  have hMain : s.AtMain program 0x1000 [] := ⟨rfl, rfl⟩
  exact ⟨hMain, ((hComputes _ _ s hMain).1 _ hRun).2⟩

/-
  With an unknown opcode behind it, a division by zero fails
  on the machine but does not abort.
-/
theorem not_aborted_of_unknown_opcode :
    let p : Program :=
      [.ofNumber 1, .ofNumber 0, .ofOpcode .div,
        .ofOpcode (.ofCode 7)]
    let out := Writer.write p { sink := {} }
    (∃ f, p.run = .error f ∧
        f.cause = .arithmetic ⟨.div, 1, 0⟩) ∧
      ∃ program,
        program? out.2.sink.output.toList = some program ∧
          let s : Processor :=
            ⟨linesFrom "main" program, 0, 0, 0, none, [0x1000]⟩
          s.AtMain program 0x1000 [] ∧
            ¬ ∃ t,
              Ends (Processor.step program) s t .aborted := by
  intro p out
  have hRun :
      p.run =
        .error ⟨.arithmetic ⟨.div, 1, 0⟩,
          [.instruction 2 (.ofOpcode .div)]⟩ := by
    rfl
  have hCut :
      (p.assembly 0).failure =
        some (.unknownOp (.opcode 7)) := by
    rfl
  refine ⟨⟨_, hRun, rfl⟩, (p.assembly 0).lines,
    Writer.program?_output p, ?_⟩
  intro s
  have hMain : s.AtMain (p.assembly 0).lines 0x1000 [] :=
    ⟨rfl, rfl⟩
  refine ⟨hMain, ?_⟩
  rintro ⟨t', hAborted⟩
  rcases Processor.ends_stuck hRun rfl hCut hMain with
    ⟨t, hStuck⟩
  cases (hAborted.unique hStuck).2

end Program

end ExprCompiler
