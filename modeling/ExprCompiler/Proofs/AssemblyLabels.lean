import ExprCompiler.Assembly.Writer
import ExprCompiler.Proofs.AssemblyText

/-
  Where the labels of a listing are defined.

  Key definitions include:
    * `Assembly.DefinesBelow`

  Main declarations:
    * `Assembly.linesFrom_label`
    * `Assembly.DefinesBelow.append_body`

  The labels of a division carry its number, and numbers are
  given out in order. So no line before a division defines
  one of its labels.
-/

------------------------------------------------------------
-- Definitions
------------------------------------------------------------

namespace ExprCompiler

namespace Assembly

/- The name of a label is defined by the label alone. -/
theorem Line.defines?_eq_name_iff
    {line : Line}
    {l : Label} :
    line.defines? = some l.name ↔ line = .label l := by
  constructor
  · intro hDefines
    cases line with
    | label l' =>
        have hName : l'.name = l.name :=
          Option.some.inj hDefines
        rw [Label.name_injective hName]
    | mainLabel =>
        exact absurd (Option.some.inj hDefines).symm
          l.name_ne_main
    | intelSyntax => cases hDefines
    | globalMain => cases hDefines
    | instr i => cases hDefines
  · intro hLine
    rw [hLine]
    rfl

/- A jump skips the lines without a definition. -/
theorem linesFrom_append
    {before : List Line}
    {l : Label}
    (hBefore : Line.label l ∉ before)
    (rest : List Line) :
    linesFrom l.name (before ++ rest) =
      linesFrom l.name rest := by
  apply List.dropWhile_append_of_pos
  intro line hLine
  have hOther : line ≠ .label l := by
    rintro rfl
    exact hBefore hLine
  simpa [Line.defines?_eq_name_iff] using hOther

/- A jump goes to the first definition of its label. -/
theorem linesFrom_label
    {before : List Line}
    {l : Label}
    (hBefore : Line.label l ∉ before)
    (rest : List Line) :
    linesFrom l.name (before ++ .label l :: rest) =
      .label l :: rest := by
  rw [linesFrom_append hBefore]
  exact List.dropWhile_cons_of_neg (by
    simp [Line.defines?])

/- A jump to a label without a definition leads nowhere. -/
theorem linesFrom_eq_nil
    {lines : List Line}
    {l : Label}
    (hLines : Line.label l ∉ lines) :
    linesFrom l.name lines = [] := by
  have hJump := linesFrom_append hLines []
  rwa [List.append_nil] at hJump

theorem linesFrom_main
    (rest : List Line) :
    linesFrom "main" (header ++ rest) =
      .mainLabel :: rest := by
  simp [linesFrom, header, Line.defines?]

------------------------------------------------------------
-- Labels of Divisions
------------------------------------------------------------

/-
  Every label that the lines define belongs to a division
  with a smaller number.
-/
def DefinesBelow
    (n : Nat)
    (lines : List Line) :
    Prop :=
  ∀ l, Line.label l ∈ lines →
    ∃ k < n, l = .divide k ∨ l = .divided k

/- The labels of a division are new. -/
theorem DefinesBelow.divide_notMem
    {n : Nat}
    {lines : List Line}
    (hBelow : DefinesBelow n lines) :
    Line.label (.divide n) ∉ lines := by
  intro hMem
  rcases hBelow _ hMem with ⟨k, hLess, hLabel | hLabel⟩
  · cases hLabel
    omega
  · cases hLabel

theorem DefinesBelow.divided_notMem
    {n : Nat}
    {lines : List Line}
    (hBelow : DefinesBelow n lines) :
    Line.label (.divided n) ∉ lines := by
  intro hMem
  rcases hBelow _ hMem with ⟨k, hLess, hLabel | hLabel⟩
  · cases hLabel
  · cases hLabel
    omega

/- No division defines the place to abort. -/
theorem DefinesBelow.divisionByZero_notMem
    {n : Nat}
    {lines : List Line}
    (hBelow : DefinesBelow n lines) :
    Line.label .divisionByZero ∉ lines := by
  intro hMem
  rcases hBelow _ hMem with ⟨k, _, hLabel | hLabel⟩
  · cases hLabel
  · cases hLabel

/- The jump to the division itself leads there. -/
theorem DefinesBelow.linesFrom_divide
    {n : Nat}
    {before : List Line}
    (hBelow : DefinesBelow n before)
    (rest : List Line) :
    linesFrom (Label.divide n).name
        (before ++ (division n ++ rest)) =
      (division n).drop 8 ++ rest := by
  have hNew :
      Line.label (.divide n) ∉
        before ++ (division n).take 8 := by
    simp [hBelow.divide_notMem, division]
  have hJump :=
    linesFrom_label hNew ((division n).drop 9 ++ rest)
  simpa [division] using hJump

/- The jump over the division leads behind it. -/
theorem DefinesBelow.linesFrom_divided
    {n : Nat}
    {before : List Line}
    (hBelow : DefinesBelow n before)
    (rest : List Line) :
    linesFrom (Label.divided n).name
        (before ++ (division n ++ rest)) =
      (division n).drop 11 ++ rest := by
  have hNew :
      Line.label (.divided n) ∉
        before ++ (division n).take 11 := by
    simp [hBelow.divided_notMem, division]
  have hJump :=
    linesFrom_label hNew ((division n).drop 12 ++ rest)
  simpa [division] using hJump

theorem definesBelow_header :
    DefinesBelow 0 header := by
  intro l hMem
  simp [header] at hMem

/- An instruction defines the labels of its own number. -/
theorem DefinesBelow.append_assembly
    {n : Nat}
    {before chunk : List Line}
    {i : Instruction}
    (hBelow : DefinesBelow n before)
    (hAssembly : i.assembly n = .ok chunk) :
    DefinesBelow (n + i.opcode.divisions)
      (before ++ chunk) := by
  intro l hMem
  rcases List.mem_append.mp hMem with hOld | hNew
  · rcases hBelow l hOld with ⟨k, hLess, hLabel⟩
    exact ⟨k, by omega, hLabel⟩
  · unfold Instruction.assembly at hAssembly
    cases hOpcode : i.opcode with
    | div =>
        rw [hOpcode] at hAssembly
        cases hAssembly
        have hLabel : l = .divide n ∨ l = .divided n := by
          simpa [division] using hNew
        exact ⟨n, by simp [Opcode.divisions], hLabel⟩
    | unknown code h =>
        rw [hOpcode] at hAssembly
        cases hAssembly
    | _ =>
        rw [hOpcode] at hAssembly
        cases hAssembly
        simp [arithmetic] at hNew

/- A program's lines continue its numbering. -/
theorem DefinesBelow.append_body
    {n : Nat}
    {before : List Line}
    {p : Program}
    (hBelow : DefinesBelow n before) :
    DefinesBelow (body n p).divisions
      (before ++ (body n p).lines) := by
  induction p generalizing n before with
  | nil => simpa [body] using hBelow
  | cons i rest ih =>
      cases hAssembly : i.assembly n with
      | error f => simpa [body, hAssembly] using hBelow
      | ok chunk =>
          have hRest :=
            ih (hBelow.append_assembly hAssembly)
          simpa [body, hAssembly] using hRest

end Assembly

end ExprCompiler
