import ExprCompiler.Proofs.AssemblyLabels
import ExprCompiler.Proofs.Execution

/-
  What the lines of an instruction do to the processor.

  Key definitions include:
    * `Assembly.Processor.Holds`
    * `Assembly.Processor.Continues`

  Main declarations:
    * `Assembly.Processor.continues_unary`
    * `Assembly.Processor.continues_arithmetic`
    * `Assembly.Processor.continues_division`
    * `Assembly.Processor.reaches_abort_of_zero`

  The processor's stack holds the machine's numbers in the
  lower halves of its topmost slots. The lines of each
  instruction keep it so, and those of a division by zero
  jump to the place to abort.
-/

------------------------------------------------------------
-- Division on the Processor
------------------------------------------------------------

namespace ExprCompiler

namespace Assembly

namespace Processor

open Transition

/-
  Behind a sign extension, a divisor other than zero and
  minus one gives the machine's quotient without a fault.
-/
theorem idiv_of_sign
    {s : Processor}
    {r : Register}
    (hSign : s.d.low = if s.a.low < 0 then -1 else 0)
    (hZero : s.low r ≠ 0)
    (hOnes : s.low r ≠ -1) :
    ∃ d,
      s.idiv r =
        .next { s with
          a := .ofLow (s.a.low / s.low r)
          d := d
          zero := none } := by
  have hDividend : s.dividend = s.a.low.toInt := by
    rw [dividend, hSign, int32_toInt_sign_append]
  have hQuotient :
      s.dividend.tdiv (s.low r).toInt =
        (s.a.low / s.low r).toInt := by
    rw [hDividend, Int32.toInt_div_of_ne_right _ _ hOnes]
  have hDivisor : (s.low r).toInt ≠ 0 := by
    intro hValue
    exact hZero (Int32.toInt_inj.mp hValue)
  have hLeast := (s.a.low / s.low r).minValue_le_toInt
  have hMost := (s.a.low / s.low r).toInt_le
  refine ⟨.ofLow (.ofInt
    (s.dividend.tmod (s.low r).toInt)), ?_⟩
  dsimp only [idiv]
  rw [hQuotient, if_neg (by omega), Int32.ofInt_toInt]

------------------------------------------------------------
-- Jumps
------------------------------------------------------------

theorem step_jump_taken
    {program rest : List Line}
    {when : Condition}
    {target : Label}
    {s : Processor}
    (hCode : s.code = .instr (.jump when target) :: rest)
    (hTakes : s.takes when = some true) :
    s.step program =
      .next { s with
        code := linesFrom target.name program } := by
  have hAhead :
      { s with code := rest }.takes when = some true := by
    rw [← hTakes]
    cases when <;> rfl
  simp [step, hCode, execute, hAhead]

theorem step_jump_passed
    {program rest : List Line}
    {when : Condition}
    {target : Label}
    {s : Processor}
    (hCode : s.code = .instr (.jump when target) :: rest)
    (hTakes : s.takes when = some false) :
    s.step program = .next { s with code := rest } := by
  have hAhead :
      { s with code := rest }.takes when = some false := by
    rw [← hTakes]
    cases when <;> rfl
  simp [step, hCode, execute, hAhead]

------------------------------------------------------------
-- Numbers on the Stack
------------------------------------------------------------

/-
  The stack holds numbers in the lower halves of its topmost
  slots, above the frame of the caller.
-/
def Holds
    (s : Processor)
    (vs : List Int32)
    (frame : List Word) :
    Prop :=
  ∃ ws, s.stack = ws ++ frame ∧ ws.map Word.low = vs

/- The number on top is in the topmost slot. -/
theorem Holds.exists_slot
    {s : Processor}
    {v : Int32}
    {vs : List Int32}
    {frame : List Word}
    (hHolds : s.Holds (v :: vs) frame) :
    ∃ w ws,
      s.stack = w :: (ws ++ frame) ∧ w.low = v ∧
        ws.map Word.low = vs := by
  rcases hHolds with ⟨slots, hStack, hSlots⟩
  rcases List.map_eq_cons_iff.mp hSlots with
    ⟨w, ws, rfl, hTop, hRest⟩
  exact ⟨w, ws, hStack, hTop, hRest⟩

theorem Holds.exists_two_slots
    {s : Processor}
    {left right : Int32}
    {vs : List Int32}
    {frame : List Word}
    (hHolds : s.Holds (right :: left :: vs) frame) :
    ∃ wr wl ws,
      s.stack = wr :: wl :: (ws ++ frame) ∧
        wr.low = right ∧ wl.low = left ∧
        ws.map Word.low = vs := by
  rcases hHolds.exists_slot with
    ⟨wr, slots, hStack, hRight, hSlots⟩
  rcases List.map_eq_cons_iff.mp hSlots with
    ⟨wl, ws, rfl, hLeft, hRest⟩
  exact ⟨wr, wl, ws, hStack, hRight, hLeft, hRest⟩

/- Execution comes to the given code with these numbers. -/
def Continues
    (program : List Line)
    (s : Processor)
    (rest : List Line)
    (vs : List Int32)
    (frame : List Word) :
    Prop :=
  ∃ s', Reaches (step program) s s' ∧
    s'.code = rest ∧ s'.Holds vs frame

section Chunks

variable {program rest : List Line}
variable {s s' : Processor}
variable {vs : List Int32} {frame : List Word}

theorem Continues.head
    (hStep : s.step program = .next s')
    (hRest : s'.Continues program rest vs frame) :
    s.Continues program rest vs frame := by
  rcases hRest with ⟨t, hReaches, hCode, hHolds⟩
  exact ⟨t, .head hStep hReaches, hCode, hHolds⟩

theorem continues_pushNumber
    {v : Int32}
    (hCode : s.code = .instr (.pushNumber v) :: rest)
    (hHolds : s.Holds vs frame) :
    s.Continues program rest (v :: vs) frame := by
  rcases hHolds with ⟨ws, hStack, rfl⟩
  rcases s with ⟨code, a, di, d, zero, stack⟩
  subst hCode hStack
  exact ⟨_, .single rfl, rfl, .ofNumber v :: ws, rfl,
    by simp⟩

/- A unary operation replaces the topmost number. -/
theorem continues_unary
    {op : UnaryOp}
    {i : Instruction}
    {n : Nat}
    {chunk : List Line}
    {v result : Int32}
    (hOp : op.opcode? = some i.opcode)
    (hAssembly : i.assembly n = .ok chunk)
    (hApply : op.apply v = .ok result)
    (hCode : s.code = chunk ++ rest)
    (hHolds : s.Holds (v :: vs) frame) :
    s.Continues program rest (result :: vs) frame := by
  rcases hHolds.exists_slot with ⟨w, ws, hStack, rfl, rfl⟩
  rcases s with ⟨code, a, di, d, zero, stack⟩
  unfold Instruction.assembly at hAssembly
  cases op with
  | plus =>
      rw [← Option.some.inj hOp] at hAssembly
      cases hAssembly
      cases hApply
      subst hCode hStack
      exact ⟨_, .head rfl (.single rfl), rfl, w :: ws, rfl,
        rfl⟩
  | minus =>
      rw [← Option.some.inj hOp] at hAssembly
      cases hAssembly
      cases hApply
      subst hCode hStack
      exact ⟨_, .head rfl (.head rfl (.single rfl)), rfl,
        .ofLow (-w.low) :: ws, rfl, by simp⟩
  | unknown symbol h => cases hOp

/- Arithmetic replaces the two topmost numbers. -/
theorem continues_arithmetic
    {op : ArithOp}
    {left right : Int32}
    (hCode : s.code = arithmetic op ++ rest)
    (hHolds : s.Holds (right :: left :: vs) frame) :
    s.Continues program rest (op.apply left right :: vs)
      frame := by
  rcases hHolds.exists_two_slots with
    ⟨wr, wl, ws, hStack, rfl, rfl, rfl⟩
  rcases s with ⟨code, a, di, d, zero, stack⟩
  subst hCode hStack
  have hResult :
      (Word.ofLow (op.apply wl.low wr.low) :: ws).map
          Word.low =
        op.apply wl.low wr.low :: ws.map Word.low := by
    simp
  cases op with
  | add | sub | imul =>
      exact ⟨_, .head rfl (.head rfl (.head rfl
        (.single rfl))), rfl, _, rfl, hResult⟩

------------------------------------------------------------
-- Divisions
------------------------------------------------------------

/- A division first compares its divisor with zero. -/
theorem reaches_zero_test
    (program : List Line)
    {n : Nat}
    {left right : Int32}
    (hCode : s.code = division n ++ rest)
    (hHolds : s.Holds (right :: left :: vs) frame) :
    ∃ s', Reaches (step program) s s' ∧
      s'.code = (division n).drop 3 ++ rest ∧
      s'.a.low = left ∧ s'.di.low = right ∧
      s'.zero = some (right == 0) ∧
      s'.Holds vs frame := by
  rcases hHolds.exists_two_slots with
    ⟨wr, wl, ws, hStack, rfl, rfl, rfl⟩
  rcases s with ⟨code, a, di, d, zero, stack⟩
  subst hCode hStack
  have hTest :
      some (wr.low &&& wr.low == 0) =
        some (wr.low == 0) := by
    rw [Int32.and_self]
  exact ⟨_, .head rfl (.head rfl (.single rfl)), rfl, rfl,
    rfl, hTest, ws, rfl, rfl⟩

/- The result of a division is pushed at its end. -/
theorem continues_quotient
    {n : Nat}
    (hCode : s.code = (division n).drop 11 ++ rest)
    (hHolds : s.Holds vs frame) :
    s.Continues program rest (s.a.low :: vs) frame := by
  rcases hHolds with ⟨ws, hStack, rfl⟩
  rcases s with ⟨code, a, di, d, zero, stack⟩
  subst hCode hStack
  exact ⟨_, .head rfl (.single rfl), rfl, a :: ws, rfl, rfl⟩

/- A division by minus one is done by negation. -/
theorem continues_negation
    {n : Nat}
    {before : List Line}
    (hProgram : program = before ++ (division n ++ rest))
    (hBelow : DefinesBelow n before)
    (hCode : s.code = (division n).drop 6 ++ rest)
    (hHolds : s.Holds vs frame) :
    s.Continues program rest (-s.a.low :: vs) frame := by
  have hJump :
      linesFrom (Label.divided n).name program =
        (division n).drop 11 ++ rest := by
    rw [hProgram]
    exact hBelow.linesFrom_divided rest
  rcases s with ⟨code, a, di, d, zero, stack⟩
  subst hCode
  apply Continues.head rfl
  apply Continues.head (step_jump_taken rfl rfl)
  rw [hJump, ← Word.low_ofLow (-a.low)]
  exact continues_quotient rfl hHolds

/- Any other division is done by dividing. -/
theorem continues_idiv
    {n : Nat}
    (hCode : s.code = (division n).drop 8 ++ rest)
    (hZero : s.di.low ≠ 0)
    (hOnes : s.di.low ≠ -1)
    (hHolds : s.Holds vs frame) :
    s.Continues program rest (s.a.low / s.di.low :: vs)
      frame := by
  rcases s with ⟨code, a, di, d, zero, stack⟩
  subst hCode
  apply Continues.head rfl
  apply Continues.head rfl
  let extended : Processor :=
    { code := (division n).drop 11 ++ rest
      a := a
      di := di
      d := .ofLow (if a.low < 0 then -1 else 0)
      zero := zero
      stack := stack }
  have hSign :
      extended.d.low =
        if extended.a.low < 0 then -1 else 0 :=
    Word.low_ofLow _
  rcases idiv_of_sign (r := .di) hSign hZero hOnes with
    ⟨remainder, hDivide⟩
  refine Continues.head
    (show step program _ = _ from hDivide) ?_
  rw [← Word.low_ofLow (a.low / di.low)]
  exact continues_quotient rfl hHolds

/- Behind the test for zero the quotient is computed. -/
theorem continues_of_nonzero
    {n : Nat}
    {before : List Line}
    (hProgram : program = before ++ (division n ++ rest))
    (hBelow : DefinesBelow n before)
    (hCode : s.code = (division n).drop 3 ++ rest)
    (hFlag : s.zero = some (s.di.low == 0))
    (hZero : s.di.low ≠ 0)
    (hHolds : s.Holds vs frame) :
    s.Continues program rest (s.a.low / s.di.low :: vs)
      frame := by
  have hPassed : s.takes .equal = some false := by
    rw [takes, hFlag]
    simpa using hZero
  rcases s with ⟨code, a, di, d, zero, stack⟩
  subst hCode
  apply Continues.head (step_jump_passed rfl hPassed)
  apply Continues.head rfl
  have hCompare : di.low - -1 = 0 ↔ di.low = -1 := by
    rw [Int32.sub_eq_iff_eq_add, Int32.zero_add]
  by_cases hOnes : di.low = -1
  · have hEqual :
        Option.map not (some (di.low - -1 == 0)) =
          some false := by
      simp [hCompare.mpr hOnes]
    refine Continues.head (step_jump_passed rfl
      (show takes .notEqual _ = _ from hEqual)) ?_
    rw [hOnes, int32_div_neg_one]
    exact continues_negation hProgram hBelow rfl hHolds
  · have hUnequal :
        Option.map not (some (di.low - -1 == 0)) =
          some true := by
      simpa using mt hCompare.mp hOnes
    refine Continues.head (step_jump_taken rfl
      (show takes .notEqual _ = _ from hUnequal)) ?_
    rw [hProgram, hBelow.linesFrom_divide rest]
    exact continues_idiv rfl hZero hOnes hHolds

/-
  A division whose divisor is not zero replaces its operands
  by their quotient.
-/
theorem continues_division
    {n : Nat}
    {before : List Line}
    {left right : Int32}
    (hProgram : program = before ++ (division n ++ rest))
    (hBelow : DefinesBelow n before)
    (hZero : right ≠ 0)
    (hCode : s.code = division n ++ rest)
    (hHolds : s.Holds (right :: left :: vs) frame) :
    s.Continues program rest (left / right :: vs) frame := by
  rcases reaches_zero_test program hCode hHolds with
    ⟨s', hTest, hAhead, rfl, rfl, hFlag, hRest⟩
  rcases continues_of_nonzero hProgram hBelow hAhead hFlag
      hZero hRest with
    ⟨t, hReaches, hEnd, hResult⟩
  exact ⟨t, hTest.trans hReaches, hEnd, hResult⟩

/- A division by zero jumps to the place to abort. -/
theorem reaches_abort_of_zero
    (program : List Line)
    {n : Nat}
    {left : Int32}
    (hCode : s.code = division n ++ rest)
    (hHolds : s.Holds (0 :: left :: vs) frame) :
    ∃ s', Reaches (step program) s s' ∧
      s'.code =
        linesFrom Label.divisionByZero.name program := by
  rcases reaches_zero_test program hCode hHolds with
    ⟨t, hTest, hAhead, _, _, hFlag, _⟩
  have hTakes : t.takes .equal = some true := hFlag
  exact ⟨_,
    hTest.trans (.single (step_jump_taken hAhead hTakes)),
    rfl⟩

end Chunks

end Processor

end Assembly

end ExprCompiler
