import ExprCompiler.Expr.Code

/-
  The shape of generated programs.

  Main declarations:
    * `Expr.emit_eq_after`
    * `Expr.code_number`
    * `Expr.code_unary_eq_ok_iff`
    * `Expr.code_binary_eq_ok_iff`
    * `Expr.isLegal_of_code_eq_ok`
    * `Expr.exists_code_of_isLegal`

  What a tree puts out does not depend on what was put out
  before it, so the program of an application is made of the
  programs of its operands.
-/

------------------------------------------------------------
-- Opcodes of Operations
------------------------------------------------------------

namespace ExprCompiler

/- Only known operations have opcodes. -/
theorem UnaryOp.isKnown_of_opcode?_eq_some
    (op : UnaryOp)
    {opcode : Opcode}
    (hOpcode : op.opcode? = some opcode) :
    op.IsKnown := by
  cases op with
  | plus => exact trivial
  | minus => exact trivial
  | unknown s h => cases hOpcode

theorem BinaryOp.isKnown_of_opcode?_eq_some
    (op : BinaryOp)
    {opcode : Opcode}
    (hOpcode : op.opcode? = some opcode) :
    op.IsKnown := by
  cases op with
  | unknown s h => cases hOpcode
  | _ => exact trivial

theorem UnaryOp.exists_opcode?_of_isKnown
    {op : UnaryOp}
    (hKnown : op.IsKnown) :
    ∃ opcode, op.opcode? = some opcode := by
  cases op with
  | unknown s h => cases hKnown
  | _ => exact ⟨_, rfl⟩

theorem BinaryOp.exists_opcode?_of_isKnown
    {op : BinaryOp}
    (hKnown : op.IsKnown) :
    ∃ opcode, op.opcode? = some opcode := by
  cases op with
  | unknown s h => cases hKnown
  | _ => exact ⟨_, rfl⟩

------------------------------------------------------------
-- Emissions behind Earlier Output
------------------------------------------------------------

namespace Emission

/- An emission that comes behind earlier output. -/
def after
    (earlier : List Instruction)
    (e : Emission) :
    Emission :=
  { e with output := e.output ++ earlier }

/- Going on looks at nothing but the output so far. -/
theorem andThen_after
    (earlier : List Instruction)
    (e : Emission)
    (next : List Instruction → Emission)
    (hNext :
      ∀ output,
        next (output ++ earlier) =
          (next output).after earlier) :
    (e.after earlier).andThen next =
      (e.andThen next).after earlier := by
  unfold andThen
  cases hFailure : e.failure with
  | none => simp [after, hFailure, hNext]
  | some f => simp [after, hFailure]

theorem apply_after
    (earlier : List Instruction)
    (opcode : Opcode)
    (e : Emission) :
    (e.after earlier).apply opcode =
      (e.apply opcode).after earlier := by
  unfold apply
  apply andThen_after
  intro output
  simp [after]

/- An operation is put out behind a complete output only. -/
theorem apply_eq_complete_iff
    {opcode : Opcode}
    {e : Emission}
    {p : Program} :
    e.apply opcode = ⟨p.reverse, none⟩ ↔
      ∃ c : Program,
        e = ⟨c.reverse, none⟩ ∧
          p = c ++ [.ofOpcode opcode] := by
  rcases e with ⟨output, failure⟩
  cases failure with
  | some f => simp [apply, andThen]
  | none =>
      constructor
      · intro h
        have hOutput :
            .ofOpcode opcode :: output = p.reverse := by
          simpa [apply, andThen] using h
        refine ⟨output.reverse, by simp, ?_⟩
        rw [← List.reverse_reverse p, ← hOutput]
        simp
      · rintro ⟨c, hEmission, rfl⟩
        have hOutput : output = c.reverse := by
          simpa using hEmission
        simp [apply, andThen, hOutput]

end Emission

------------------------------------------------------------
-- Emissions of Trees
------------------------------------------------------------

namespace Expr

/- A tree puts out the same behind any earlier output. -/
theorem emit_append
    (e : Expr)
    (output earlier : List Instruction) :
    e.emit (output ++ earlier) =
      (e.emit output).after earlier := by
  induction e generalizing output with
  | missing => rfl
  | number value => rfl
  | unary op x ih =>
      cases hOpcode : op.opcode? with
      | none => simp [emit, hOpcode, Emission.after]
      | some opcode =>
          simp only [emit, hOpcode]
          rw [ih, Emission.apply_after]
  | binary op l r ihLeft ihRight =>
      cases hOpcode : op.opcode? with
      | none => simp [emit, hOpcode, Emission.after]
      | some opcode =>
          simp only [emit, hOpcode]
          rw [ihLeft,
            Emission.andThen_after _ _ _ ihRight,
            Emission.apply_after]

theorem emit_eq_after
    (e : Expr)
    (earlier : List Instruction) :
    e.emit earlier = (e.emit []).after earlier := by
  simpa using e.emit_append [] earlier

/- Two trees in a row are complete if each is. -/
theorem andThen_emit_eq_complete_iff
    {l r : Expr}
    {c : Program} :
    (l.emit []).andThen r.emit = ⟨c.reverse, none⟩ ↔
      ∃ cl cr : Program,
        l.emit [] = ⟨cl.reverse, none⟩ ∧
          r.emit [] = ⟨cr.reverse, none⟩ ∧
          c = cl ++ cr := by
  rcases l.emit [] with ⟨output, failure⟩
  cases failure with
  | some f => simp [Emission.andThen]
  | none =>
      simp only [Emission.andThen]
      rw [r.emit_eq_after output]
      rcases r.emit [] with ⟨more, failure⟩
      constructor
      · intro h
        simp only [Emission.after,
          Emission.mk.injEq] at h
        rcases h with ⟨hOutput, rfl⟩
        refine ⟨output.reverse, more.reverse,
          by simp, by simp, ?_⟩
        rw [← List.reverse_reverse c, ← hOutput]
        simp
      · rintro ⟨cl, cr, hLeft, hRight, rfl⟩
        simp only [Emission.mk.injEq] at hLeft hRight
        simp [Emission.after, hLeft.1, hRight.1, hRight.2]

------------------------------------------------------------
-- Programs of Trees
------------------------------------------------------------

/- A tree has a program if its emission is complete. -/
theorem code_eq_ok_iff
    {e : Expr}
    {p : Program} :
    e.code = .ok p ↔ e.emit [] = ⟨p.reverse, none⟩ := by
  unfold code
  rcases e.emit [] with ⟨output, failure⟩
  cases failure with
  | some f => simp [Emission.outcome, Except.map]
  | none =>
      have hReverse :
          output.reverse = p ↔ output = p.reverse := by
        constructor
        · rintro rfl
          simp
        · rintro rfl
          simp
      simpa [Emission.outcome, Emission.program,
        Except.map] using hReverse

theorem code_missing_ne_ok
    (p : Program) :
    code .missing ≠ .ok p := by
  intro h
  cases h

theorem code_number
    (value : UInt32) :
    (number value).code = .ok [.ofNumber value] := rfl

/- The program of a unary tree ends with its operation. -/
theorem code_unary_eq_ok_iff
    {op : UnaryOp}
    {x : Expr}
    {p : Program} :
    (unary op x).code = .ok p ↔
      ∃ opcode c,
        op.opcode? = some opcode ∧ x.code = .ok c ∧
          p = c ++ [.ofOpcode opcode] := by
  rw [code_eq_ok_iff]
  cases hOpcode : op.opcode? with
  | none => simp [emit, hOpcode]
  | some opcode =>
      simp only [emit, hOpcode,
        Emission.apply_eq_complete_iff, code_eq_ok_iff,
        Option.some.injEq, exists_and_left,
        exists_eq_left']

/-
  The program of a binary tree is made of its left operand's,
  its right operand's and its operation.
-/
theorem code_binary_eq_ok_iff
    {op : BinaryOp}
    {l r : Expr}
    {p : Program} :
    (binary op l r).code = .ok p ↔
      ∃ opcode cl cr,
        op.opcode? = some opcode ∧ l.code = .ok cl ∧
          r.code = .ok cr ∧
          p = cl ++ cr ++ [.ofOpcode opcode] := by
  rw [code_eq_ok_iff]
  cases hOpcode : op.opcode? with
  | none => simp [emit, hOpcode]
  | some opcode =>
      simp only [emit, hOpcode, code_eq_ok_iff,
        Emission.apply_eq_complete_iff,
        andThen_emit_eq_complete_iff, Option.some.injEq]
      constructor
      · rintro ⟨c, ⟨cl, cr, hLeft, hRight, rfl⟩, rfl⟩
        exact ⟨opcode, cl, cr, rfl, hLeft, hRight, rfl⟩
      · rintro ⟨_, cl, cr, rfl, hLeft, hRight, rfl⟩
        exact ⟨cl ++ cr, ⟨cl, cr, hLeft, hRight, rfl⟩, rfl⟩

/- Only legal trees have programs. -/
theorem isLegal_of_code_eq_ok
    {e : Expr}
    {p : Program}
    (hCode : e.code = .ok p) :
    e.IsLegal := by
  induction e generalizing p with
  | missing => exact absurd hCode (code_missing_ne_ok p)
  | number value => exact trivial
  | unary op x ih =>
      rcases code_unary_eq_ok_iff.mp hCode with
        ⟨opcode, c, hOpcode, hOperand, _⟩
      exact ⟨op.isKnown_of_opcode?_eq_some hOpcode,
        ih hOperand⟩
  | binary op l r ihLeft ihRight =>
      rcases code_binary_eq_ok_iff.mp hCode with
        ⟨opcode, cl, cr, hOpcode, hLeft, hRight, _⟩
      exact ⟨op.isKnown_of_opcode?_eq_some hOpcode,
        ihLeft hLeft, ihRight hRight⟩

/- Every legal tree has a program. -/
theorem exists_code_of_isLegal
    {e : Expr}
    (hLegal : e.IsLegal) :
    ∃ p, e.code = .ok p := by
  induction e with
  | missing => cases hLegal
  | number value => exact ⟨_, code_number value⟩
  | unary op x ih =>
      rcases hLegal with ⟨hKnown, hOperand⟩
      rcases UnaryOp.exists_opcode?_of_isKnown hKnown with
        ⟨opcode, hOpcode⟩
      rcases ih hOperand with ⟨c, hCode⟩
      exact ⟨_, code_unary_eq_ok_iff.mpr
        ⟨opcode, c, hOpcode, hCode, rfl⟩⟩
  | binary op l r ihLeft ihRight =>
      rcases hLegal with ⟨hKnown, hLeft, hRight⟩
      rcases BinaryOp.exists_opcode?_of_isKnown hKnown with
        ⟨opcode, hOpcode⟩
      rcases ihLeft hLeft with ⟨cl, hCodeLeft⟩
      rcases ihRight hRight with ⟨cr, hCodeRight⟩
      exact ⟨_, code_binary_eq_ok_iff.mpr
        ⟨opcode, cl, cr, hOpcode, hCodeLeft, hCodeRight,
          rfl⟩⟩

end Expr

end ExprCompiler
