import ExprCompiler.Compilation
import ExprCompiler.Proofs.Code
import ExprCompiler.Proofs.ParserCorrectness

/-
  How the stages of compilation go together.

  Main declarations:
    * `Grammar.Derives.isLegal`
    * `compile_eq_ok_iff`
    * `compile_eq_error_iff`
    * `emit_of_compile_eq_ok`
    * `emit_of_compile_eq_error`

  The trees of expressions are legal, so that no stage after
  parsing can fail.
-/

------------------------------------------------------------
-- Trees of Expressions
------------------------------------------------------------

namespace ExprCompiler

namespace Grammar

/- What derives from the grammar has a legal tree. -/
theorem Derives.isLegal
    {level : Level}
    {ts : List PlacedToken}
    {e : Expr}
    (hDerives : Derives level ts e) :
    e.IsLegal := by
  induction hDerives with
  | ofProduct _ ih => exact ih
  | ofFactor _ ih => exact ih
  | ofPrimary _ ih => exact ih
  | sum _ hOp _ ihLeft ihRight =>
      rcases TokenKind.sumOp?_eq_some_iff.mp hOp with
        ⟨_, rfl⟩ | ⟨_, rfl⟩
      · exact ⟨trivial, ihLeft, ihRight⟩
      · exact ⟨trivial, ihLeft, ihRight⟩
  | product _ hOp _ ihLeft ihRight =>
      rcases TokenKind.productOp?_eq_some_iff.mp hOp with
        ⟨_, rfl⟩ | ⟨_, rfl⟩
      · exact ⟨trivial, ihLeft, ihRight⟩
      · exact ⟨trivial, ihLeft, ihRight⟩
  | signed hSign _ ih =>
      rcases TokenKind.sign?_eq_some_iff.mp hSign with
        ⟨_, rfl⟩ | ⟨_, rfl⟩
      · exact ⟨trivial, ih⟩
      · exact ⟨trivial, ih⟩
  | number _ => exact trivial
  | group _ _ _ ih => exact ih

end Grammar

theorem Expr.isLegal_of_parse_eq_ok
    {limit : Int}
    {ts : List PlacedToken}
    {e : Expr}
    (hParse : parse limit ts = .ok e) :
    e.IsLegal :=
  (derives_of_parse_eq_ok hParse).isLegal

------------------------------------------------------------
-- Compiled Lines
------------------------------------------------------------

theorem compile_eq_ok_iff
    {policy : OverflowPolicy}
    {line : Text}
    {c : Compilation} :
    (compile policy line).1 = .ok c ↔
      ∃ ts e p,
        lex policy line = .ok ts ∧
          Expr.parse line.length ts = .ok e ∧
          e.code = .ok p ∧ c = ⟨line, ts, e, p⟩ := by
  unfold compile
  cases lex policy line with
  | error e => simp
  | ok ts =>
      cases hParse : Expr.parse line.length ts with
      | error e => simp [hParse]
      | ok e =>
          cases hCode : e.code with
          | error f => simp [hParse, hCode]
          | ok p => simp [hParse, hCode, eq_comm]

/- A line that fails to compile fails in its tokens. -/
theorem compile_eq_error_iff
    {policy : OverflowPolicy}
    {line : Text}
    {f : Failure} :
    (compile policy line).1 = .error f ↔
      (∃ e, lex policy line = .error e ∧
          f = ⟨.lex e, [.stage .lex]⟩) ∨
        (∃ ts e, lex policy line = .ok ts ∧
          Expr.parse line.length ts = .error e ∧
          f = ⟨.parse e, [.stage .parse]⟩) := by
  unfold compile
  cases lex policy line with
  | error e => simp [eq_comm]
  | ok ts =>
      cases hParse : Expr.parse line.length ts with
      | error e => simp [hParse, eq_comm]
      | ok e =>
          rcases Expr.exists_code_of_isLegal
              (Expr.isLegal_of_parse_eq_ok hParse) with
            ⟨p, hCode⟩
          simp [hParse, hCode]

------------------------------------------------------------
-- Lines That Are Put Out
------------------------------------------------------------

/- A sink with room takes a piece behind its output. -/
theorem Sink.write_of_room
    {sink : Sink}
    (hRoom : sink.room ≠ some 0)
    (piece : String) :
    (sink.write piece).1 = .ok () ∧
      (sink.write piece).2.output =
        sink.output ++ piece := by
  unfold write
  split
  · simp [output]
  · simp [output]
  · rename_i hNone
    exact absurd hNone hRoom

section Lines

variable {policy : OverflowPolicy} {line : Text}

theorem emit_of_compile_eq_ok
    {c : Compilation}
    (hCompile : (compile policy line).1 = .ok c)
    (target : Target)
    (sink : Sink) :
    (emit ⟨target, policy⟩ line sink).outcome =
        (c.emit target sink).1 ∧
      (emit ⟨target, policy⟩ line sink).sink =
        (c.emit target sink).2 := by
  rcases hCompiled : compile policy line with ⟨result, log⟩
  rw [hCompiled] at hCompile
  cases hCompile
  simp [emit, hCompiled]

/- Nothing is put out for a line that does not compile. -/
theorem emit_of_compile_eq_error
    {f : Failure}
    (hCompile : (compile policy line).1 = .error f)
    (target : Target)
    (sink : Sink) :
    (emit ⟨target, policy⟩ line sink).outcome = .error f ∧
      (emit ⟨target, policy⟩ line sink).sink = sink := by
  rcases hCompiled : compile policy line with ⟨result, log⟩
  rw [hCompiled] at hCompile
  cases hCompile
  simp [emit, hCompiled]

end Lines

end ExprCompiler
