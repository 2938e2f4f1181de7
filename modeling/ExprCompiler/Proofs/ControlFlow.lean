import ExprCompiler.Llvm.Basic

/-
  How control flows through a function, and what makes a
  function well formed.

  Key definitions include:
    * `Llvm.Edge`
    * `Llvm.Path`
    * `Llvm.Dominates`
    * `Llvm.Available`
    * `Llvm.Function.IsValid`
    * `Llvm.Flow`

  Main declarations:
    * `Llvm.Path.mono`
    * `Llvm.dominates_spine`

  The blocks of divisions are laid out one diamond behind
  the other. Control passes from the entry through all the
  blocks where the cases of a division meet, so each of
  these dominates everything behind it.
-/

------------------------------------------------------------
-- Operands and Results
------------------------------------------------------------

namespace ExprCompiler

namespace Llvm

namespace Instr

/- The number of an instruction's result. -/
def result? : Instr → Option Nat
| .arith n _ _ _ => some n
| .isEqual n _ _ => some n
| .phi n _ _ => some n
| .callAbort => none

/-
  The values used where an instruction stands. The values of
  a phi are used in the blocks that control comes from.
-/
def operands : Instr → List Value
| .arith _ _ left right => [left, right]
| .isEqual _ left right => [left, right]
| .phi _ _ _ => []
| .callAbort => []

end Instr

namespace Terminator

/- The values that a terminator uses. -/
def operands : Terminator → List Value
| .ret v => [v]
| .branch condition _ _ => [condition]
| .jump _ => []
| .unreachable => []

/- The blocks that a terminator leads to. -/
def targets : Terminator → List Label
| .jump target => [target]
| .branch _ yes no => [yes, no]
| .ret _ => []
| .unreachable => []

end Terminator

/- A result is that of one of the given instructions. -/
def DefinedIn
    (body : List Instr)
    (n : Nat) :
    Prop :=
  ∃ i ∈ body, i.result? = some n

------------------------------------------------------------
-- Paths and Dominance
------------------------------------------------------------

/- Control can pass from one block to another. -/
def Edge
    (blocks : List Block)
    (source target : Label) :
    Prop :=
  ∃ b ∈ blocks,
    b.label = source ∧ target ∈ b.terminator.targets

/- A way from the entry to a block, latest block first. -/
inductive Path
    (blocks : List Block) :
    List Label → Label → Prop
  | entry :
      Path blocks [.entry] .entry
  | step
      {ls : List Label}
      {l l' : Label}
      (h : Path blocks ls l)
      (hEdge : Edge blocks l l') :
      Path blocks (l' :: ls) l'

/- Every way from the entry to a block passes the other. -/
def Dominates
    (blocks : List Block)
    (first second : Label) :
    Prop :=
  ∀ ls, Path blocks ls second → first ∈ ls

theorem Edge.mono
    {blocks blocks' : List Block}
    {l l' : Label}
    (hSubset : blocks ⊆ blocks')
    (hEdge : Edge blocks l l') :
    Edge blocks' l l' := by
  rcases hEdge with ⟨b, hMem, hSource, hTarget⟩
  exact ⟨b, hSubset hMem, hSource, hTarget⟩

theorem Path.mono
    {blocks blocks' : List Block}
    {ls : List Label}
    {l : Label}
    (hSubset : blocks ⊆ blocks')
    (hPath : Path blocks ls l) :
    Path blocks' ls l := by
  induction hPath with
  | entry => exact .entry
  | step h hEdge ih => exact .step ih (hEdge.mono hSubset)

theorem dominates_self
    (blocks : List Block)
    (l : Label) :
    Dominates blocks l l := by
  intro ls hPath
  cases hPath with
  | entry => exact List.mem_cons_self
  | step h hEdge => exact List.mem_cons_self

------------------------------------------------------------
-- Valid Functions
------------------------------------------------------------

/-
  A value can be used in a block behind the given ones of
  its instructions: it is a constant, or the result of one
  of them, or that of a block which dominates this one.
-/
def Available
    (blocks : List Block)
    (label : Label)
    (before : List Instr) :
    Value → Prop
| .number _ => True
| .result n =>
    DefinedIn before n ∨
      ∃ b ∈ blocks,
        b.label ≠ label ∧ DefinedIn b.body n ∧
          Dominates blocks b.label label

/- A value can be used at the end of a block. -/
def AvailableFrom
    (blocks : List Block)
    (source : Label) :
    Value → Prop
| .number _ => True
| .result n =>
    ∃ b ∈ blocks,
      DefinedIn b.body n ∧ Dominates blocks b.label source

/- Whether the text of an instruction ends a block. -/
def IsTerminator
    (line : String) :
    Prop :=
  line.toList.takeWhile (· ≠ ' ') ∈
    ["ret".toList, "br".toList, "unreachable".toList]

/-
  The rules for a function and its blocks.

  The type of a block carries the rule on terminators: a
  block has exactly one, in a field of its own. Thus
  `terminators` holds of every function. What it adds is
  that terminators and instructions differ in their texts.
-/
structure Function.IsValid
    (f : Function) :
    Prop where
  entry :
    f.blocks.head?.map Block.label = some .entry
  reached :
    ∀ b ∈ f.blocks, ∃ ls, Path f.blocks ls b.label
  names :
    (f.blocks.map fun b => b.label.name).Nodup
  results :
    ((f.blocks.flatMap Block.body).filterMap
      Instr.result?).Nodup
  terminators :
    ∀ b ∈ f.blocks,
      IsTerminator b.terminator.render ∧
        ∀ i ∈ b.body, ¬ IsTerminator i.render
  targets :
    ∀ b ∈ f.blocks, ∀ l ∈ b.terminator.targets,
      l ≠ .entry ∧ ∃ b' ∈ f.blocks, b'.label = l
  phis :
    ∀ b ∈ f.blocks, ∀ before n first second after,
      b.body = before ++ .phi n first second :: after →
        before = [] ∧ first.source ≠ second.source ∧
          (∀ l, Edge f.blocks l b.label ↔
            l = first.source ∨ l = second.source) ∧
          AvailableFrom f.blocks first.source first.value ∧
          AvailableFrom f.blocks second.source second.value
  operands :
    ∀ b ∈ f.blocks, ∀ before i after,
      b.body = before ++ i :: after →
        ∀ v ∈ i.operands,
          Available f.blocks b.label before v
  outcomes :
    ∀ b ∈ f.blocks, ∀ v ∈ b.terminator.operands,
      Available f.blocks b.label b.body v

theorem isTerminator_terminator
    (t : Terminator) :
    IsTerminator t.render := by
  cases t with
  | ret v => simp [IsTerminator, Terminator.render]
  | jump target => simp [IsTerminator, Terminator.render]
  | branch condition yes no =>
      simp [IsTerminator, Terminator.render]
  | unreachable => simp [IsTerminator, Terminator.render]

theorem not_isTerminator_instr
    (i : Instr) :
    ¬ IsTerminator i.render := by
  cases i with
  | arith n op left right =>
      simp [IsTerminator, Instr.render, Value.render]
  | isEqual n left right =>
      simp [IsTerminator, Instr.render, Value.render]
  | phi n first second =>
      simp [IsTerminator, Instr.render, Value.render]
  | callAbort => simp [IsTerminator, Instr.render]

------------------------------------------------------------
-- Chains of Diamonds
------------------------------------------------------------

/- The block that the division of a number starts in. -/
def spine : Nat → Label
| 0 => .entry
| n + 1 => .join n

/- How many divisions are behind control in a block. -/
def Label.level : Label → Nat
| .entry => 0
| .zero n => n
| .check n => n
| .negate n => n
| .divide n => n
| .join n => n + 1

/- How control flows through the blocks of divisions. -/
inductive Flow : Label → Label → Prop
  | zero (n : Nat) : Flow (spine n) (.zero n)
  | check (n : Nat) : Flow (spine n) (.check n)
  | negate (n : Nat) : Flow (.check n) (.negate n)
  | divide (n : Nat) : Flow (.check n) (.divide n)
  | joinNegate (n : Nat) : Flow (.negate n) (.join n)
  | joinDivide (n : Nat) : Flow (.divide n) (.join n)

theorem level_spine
    (n : Nat) :
    (spine n).level = n := by
  cases n with
  | zero => rfl
  | succ n => rfl

/- No division starts in one of the cases of another. -/
theorem spine_ne_case
    (k n : Nat) :
    spine k ≠ .check n ∧ spine k ≠ .negate n ∧
      spine k ≠ .divide n := by
  cases k with
  | zero => simp [spine]
  | succ k => simp [spine]

theorem Flow.ne_entry
    {l l' : Label}
    (hFlow : Flow l l') :
    l' ≠ .entry := by
  cases hFlow <;> simp

theorem Flow.join_iff
    {l : Label}
    {n : Nat} :
    Flow l (.join n) ↔ l = .negate n ∨ l = .divide n := by
  constructor
  · intro hFlow
    cases hFlow with
    | joinNegate => exact .inl rfl
    | joinDivide => exact .inr rfl
  · rintro (rfl | rfl)
    · exact .joinNegate n
    · exact .joinDivide n

/- Only the blocks where cases meet lead a level up. -/
theorem Flow.level_cases
    {l l' : Label}
    (hFlow : Flow l l') :
    l'.level = l.level ∨
      l' = spine (l.level + 1) := by
  cases hFlow with
  | zero n => exact .inl (level_spine n).symm
  | check n => exact .inl (level_spine n).symm
  | negate n => exact .inl rfl
  | divide n => exact .inl rfl
  | joinNegate n => exact .inr rfl
  | joinDivide n => exact .inr rfl

/-
  Where control only flows through diamonds, the blocks that
  divisions start in dominate all that is not before them.
-/
theorem dominates_spine
    {blocks : List Block}
    (hFlow : ∀ l l', Edge blocks l l' → Flow l l')
    {l : Label}
    {k : Nat}
    (hLevel : k ≤ l.level) :
    Dominates blocks (spine k) l := by
  intro ls hPath
  -- A step of the path stays on its level or adds the next
  -- block of the spine.
  induction hPath generalizing k with
  | entry =>
      cases Nat.le_zero.mp hLevel
      exact List.mem_cons_self
  | @step ls l l' h hEdge ih =>
      rcases (hFlow l l' hEdge).level_cases with
        hSame | rfl
      · rw [hSame] at hLevel
        exact List.mem_cons_of_mem l' (ih hLevel)
      · rw [level_spine] at hLevel
        rcases Nat.lt_or_eq_of_le hLevel with hLess | rfl
        · exact List.mem_cons_of_mem _
            (ih (Nat.lt_succ_iff.mp hLess))
        · exact List.mem_cons_self

end Llvm

end ExprCompiler
