import ExprCompiler.Proofs.ControlFlow
import ExprCompiler.Proofs.LlvmDrafts

/-
  The functions made of expressions are well formed.

  Key definitions include:
    * `Llvm.Draft.Shaped`
    * `Llvm.Held`
    * `Llvm.Draft.Supplied`
    * `Expr.divisions`

  Main declarations:
    * `Llvm.Draft.Grows.shaped`
    * `Llvm.Draft.Supplied.arith`
    * `Llvm.Draft.Supplied.division`
    * `Expr.supplied_of_load`
    * `Expr.exists_valid_llvm`

  The values of operands are only ever computed in blocks
  that a division starts in or that the last one ends in,
  and these dominate all that comes later. The blocks of the
  cases keep their results to themselves, except for the
  quotient on which they meet.
-/

------------------------------------------------------------
-- Shapes of Drafts
------------------------------------------------------------

namespace ExprCompiler

namespace Llvm

namespace Draft

/- The instructions of a draft in the order of its blocks. -/
def instrs
    (d : Draft) :
    List Instr :=
  d.blocks.reverse.flatMap Block.body ++ d.body.reverse

/-
  A draft is a chain of diamonds, of which the last ends in
  the block being filled, and results are numbered through.
-/
structure Shaped
    (d : Draft) :
    Prop where
  label : d.label = spine d.divisions
  count : d.blocks.length = 5 * d.divisions
  flow :
    ∀ b ∈ d.blocks, ∀ l ∈ b.terminator.targets,
      Flow b.label l ∧ l ∈ d.labels
  reached :
    ∀ l ∈ d.labels, ∃ ls, Path d.blocks ls l
  numbered :
    d.instrs.filterMap Instr.result? = List.range d.results

theorem shaped_empty :
    Shaped {} where
  label := rfl
  count := rfl
  flow := by simp
  reached := by
    intro l hMem
    cases List.mem_singleton.mp hMem
    exact ⟨[.entry], .entry⟩
  numbered := rfl

variable {d d' : Draft}

theorem Shaped.arith
    (hShaped : d.Shaped)
    (op : ArithOp)
    (left right : Value) :
    (d.arith op left right).2.Shaped where
  label := hShaped.label
  count := hShaped.count
  flow := hShaped.flow
  reached := hShaped.reached
  numbered := by
    have hInstrs :
        (d.arith op left right).2.instrs =
          d.instrs ++ [.arith d.results op left right] := by
      simp [Draft.arith, instrs]
    rw [hInstrs, List.filterMap_append, hShaped.numbered]
    exact List.range_succ.symm

/- The blocks that a division finishes, newest first. -/
def diamond
    (d : Draft)
    (left right : Value) :
    List Block :=
  let n := d.divisions
  let r := d.results
  [⟨.divide n, [.arith (r + 3) .sdiv left right],
      .jump (.join n)⟩,
    ⟨.negate n, [.arith (r + 2) .mul left (.number (-1))],
      .jump (.join n)⟩,
    ⟨.check n, [.isEqual (r + 1) right (.number (-1))],
      .branch (.result (r + 1)) (.negate n) (.divide n)⟩,
    ⟨.zero n, [.callAbort], .unreachable⟩,
    ⟨d.label,
      d.body.reverse ++ [.isEqual r right (.number 0)],
      .branch (.result r) (.zero n) (.check n)⟩]

theorem blocks_division
    (left right : Value) :
    (d.division left right).2.blocks =
      d.diamond left right ++ d.blocks := by
  simp [division, diamond]

theorem labels_division
    (left right : Value) :
    (d.division left right).2.labels =
      [.join d.divisions, .divide d.divisions,
        .negate d.divisions, .check d.divisions,
        .zero d.divisions] ++ d.labels :=
  rfl

/- The blocks of a division are reached from where it is. -/
theorem Shaped.reached_division
    (hShaped : d.Shaped)
    (left right : Value) :
    ∀ l ∈ (d.division left right).2.labels,
      ∃ ls, Path (d.division left right).2.blocks ls l := by
  let n := d.divisions
  let blocks := d.diamond left right ++ d.blocks
  rw [blocks_division, labels_division]
  have hOld : ∀ l ∈ d.labels, ∃ ls, Path blocks ls l := by
    intro l hMem
    rcases hShaped.reached l hMem with ⟨ls, hPath⟩
    exact ⟨ls, hPath.mono (List.subset_append_right _ _)⟩
  have hEdges :
      (Edge blocks d.label (.zero n) ∧
          Edge blocks d.label (.check n)) ∧
        (Edge blocks (.check n) (.negate n) ∧
          Edge blocks (.check n) (.divide n)) ∧
        Edge blocks (.divide n) (.join n) := by
    simp [Edge, blocks, diamond, Terminator.targets, n]
  rcases hEdges with
    ⟨⟨hToZero, hToCheck⟩, ⟨hToNegate, hToDivide⟩, hToJoin⟩
  rcases hOld d.label List.mem_cons_self with ⟨ls, hStart⟩
  have hCheck := hStart.step hToCheck
  have hDivide := hCheck.step hToDivide
  intro l hMem
  rcases List.mem_append.mp hMem with hNew | hMem
  · simp only [List.mem_cons, List.not_mem_nil, or_false]
      at hNew
    rcases hNew with rfl | rfl | rfl | rfl | rfl
    · exact ⟨_, hDivide.step hToJoin⟩
    · exact ⟨_, hDivide⟩
    · exact ⟨_, hCheck.step hToNegate⟩
    · exact ⟨_, hCheck⟩
    · exact ⟨_, hStart.step hToZero⟩
  · exact hOld l hMem

theorem Shaped.flow_diamond
    (hShaped : d.Shaped)
    {left right : Value}
    {b : Block}
    (hMem : b ∈ d.diamond left right)
    {l : Label}
    (hTarget : l ∈ b.terminator.targets) :
    Flow b.label l ∧
      l ∈ (d.division left right).2.labels := by
  rw [labels_division]
  simp only [diamond, List.mem_cons, List.not_mem_nil,
    or_false] at hMem
  rcases hMem with rfl | rfl | rfl | rfl | rfl
  · cases List.mem_singleton.mp hTarget
    exact ⟨.joinDivide _, by simp⟩
  · cases List.mem_singleton.mp hTarget
    exact ⟨.joinNegate _, by simp⟩
  · rcases List.mem_pair.mp hTarget with rfl | rfl
    · exact ⟨.negate _, by simp⟩
    · exact ⟨.divide _, by simp⟩
  · cases hTarget
  · rcases List.mem_pair.mp hTarget with rfl | rfl
    · rw [hShaped.label]
      exact ⟨.zero _, by simp⟩
    · rw [hShaped.label]
      exact ⟨.check _, by simp⟩

theorem Shaped.division
    (hShaped : d.Shaped)
    (left right : Value) :
    (d.division left right).2.Shaped where
  label := rfl
  count := by
    rw [blocks_division, List.length_append, hShaped.count]
    exact Nat.add_comm 5 _
  flow := by
    intro b hMem l hTarget
    rw [blocks_division] at hMem
    rcases List.mem_append.mp hMem with hNew | hOld
    · exact hShaped.flow_diamond hNew hTarget
    · rcases hShaped.flow b hOld l hTarget with
        ⟨hFlow, hLabel⟩
      rw [labels_division]
      exact ⟨hFlow, List.mem_append_right _ hLabel⟩
  reached := hShaped.reached_division left right
  numbered := by
    have hInstrs :
        (d.division left right).2.instrs =
          d.instrs ++
            [.isEqual d.results right (.number 0),
              .callAbort,
              .isEqual (d.results + 1) right (.number (-1)),
              .arith (d.results + 2) .mul left
                (.number (-1)),
              .arith (d.results + 3) .sdiv left right,
              .phi (d.results + 4)
                ⟨.result (d.results + 2),
                  .negate d.divisions⟩
                ⟨.result (d.results + 3),
                  .divide d.divisions⟩] := by
      simp [instrs, Draft.division]
    have hRange :
        List.range (d.results + 5) =
          List.range d.results ++
            [d.results, d.results + 1, d.results + 2,
              d.results + 3, d.results + 4] := by
      simp [List.range_succ]
    rw [hInstrs, List.filterMap_append, hShaped.numbered]
    exact hRange.symm

theorem Grows.shaped
    (hGrows : d.Grows d')
    (hShaped : d.Shaped) :
    d'.Shaped := by
  induction hGrows with
  | refl => exact hShaped
  | tail _ hLast ih =>
      cases hLast with
      | arith op left right => exact ih.arith op left right
      | division left right => exact ih.division left right

end Draft

------------------------------------------------------------
-- Values at Hand
------------------------------------------------------------

/-
  A value is at hand in a block behind the given ones of its
  instructions: it is a constant, or the result of one of
  them, or that of an earlier block which a division starts
  in.
-/
def Held
    (blocks : List Block)
    (label : Label)
    (before : List Instr) :
    Value → Prop
| .number _ => True
| .result n =>
    DefinedIn before n ∨
      ∃ b ∈ blocks, ∃ k ≤ label.level,
        b.label = spine k ∧ b.label ≠ label ∧
          DefinedIn b.body n

theorem DefinedIn.mono
    {body body' : List Instr}
    {n : Nat}
    (hSubset : body ⊆ body')
    (hDefined : DefinedIn body n) :
    DefinedIn body' n := by
  rcases hDefined with ⟨i, hMem, hResult⟩
  exact ⟨i, hSubset hMem, hResult⟩

theorem Held.mono
    {blocks blocks' : List Block}
    {label : Label}
    {before before' : List Instr}
    {v : Value}
    (hBlocks : blocks ⊆ blocks')
    (hBefore : before ⊆ before')
    (hHeld : Held blocks label before v) :
    Held blocks' label before' v := by
  cases v with
  | number v => trivial
  | result n =>
      rcases hHeld with hDefined | ⟨b, hMem, hOther⟩
      · exact .inl (hDefined.mono hBefore)
      · exact .inr ⟨b, hBlocks hMem, hOther⟩

/- Values at hand come from blocks that dominate theirs. -/
theorem Held.available
    {blocks : List Block}
    {label : Label}
    {before : List Instr}
    {v : Value}
    (hFlow : ∀ l l', Edge blocks l l' → Flow l l')
    (hHeld : Held blocks label before v) :
    Available blocks label before v := by
  cases v with
  | number v => trivial
  | result n =>
      rcases hHeld with
        hDefined |
          ⟨b, hMem, k, hLevel, hLabel, hOther, hDefined⟩
      · exact .inl hDefined
      · refine .inr ⟨b, hMem, hOther, hDefined, ?_⟩
        rw [hLabel]
        exact dominates_spine hFlow hLevel

------------------------------------------------------------
-- Instructions with Their Operands
------------------------------------------------------------

/- A value comes out of a block that leads to a target. -/
def Incoming.Reaches
    (blocks : List Block)
    (target : Label)
    (i : Incoming) :
    Prop :=
  ∃ b ∈ blocks,
    b.label = i.source ∧ target ∈ b.terminator.targets ∧
      ∀ n, i.value = .result n → DefinedIn b.body n

/-
  An instruction has its operands at hand, or it is where
  the cases of a division meet.
-/
def Instr.Fits
    (blocks : List Block)
    (label : Label)
    (before : List Instr) :
    Instr → Prop
| .arith _ _ left right
| .isEqual _ left right =>
    Held blocks label before left ∧
      Held blocks label before right
| .phi _ first second =>
    before = [] ∧
      (∃ n, label = .join n ∧ first.source = .negate n ∧
        second.source = .divide n) ∧
      first.Reaches blocks label ∧
      second.Reaches blocks label
| .callAbort => True

/- All instructions of a block have their operands. -/
def BodyFits
    (blocks : List Block)
    (label : Label)
    (body : List Instr) :
    Prop :=
  ∀ before i after, body = before ++ i :: after →
    i.Fits blocks label before

theorem Instr.Fits.mono
    {blocks blocks' : List Block}
    {label : Label}
    {before : List Instr}
    {i : Instr}
    (hBlocks : blocks ⊆ blocks')
    (hFits : i.Fits blocks label before) :
    i.Fits blocks' label before := by
  have hHeld :
      ∀ v, Held blocks label before v →
        Held blocks' label before v :=
    fun v => Held.mono hBlocks (List.Subset.refl before)
  have hReaches :
      ∀ inc : Incoming, inc.Reaches blocks label →
        inc.Reaches blocks' label := by
    rintro inc ⟨b, hMem, hSource⟩
    exact ⟨b, hBlocks hMem, hSource⟩
  cases i with
  | arith n op left right =>
      exact ⟨hHeld _ hFits.1, hHeld _ hFits.2⟩
  | isEqual n left right =>
      exact ⟨hHeld _ hFits.1, hHeld _ hFits.2⟩
  | phi n first second =>
      rcases hFits with ⟨hFirst, hLabels, hLeft, hRight⟩
      exact ⟨hFirst, hLabels, hReaches _ hLeft,
        hReaches _ hRight⟩
  | callAbort => trivial

theorem BodyFits.mono
    {blocks blocks' : List Block}
    {label : Label}
    {body : List Instr}
    (hBlocks : blocks ⊆ blocks')
    (hBody : BodyFits blocks label body) :
    BodyFits blocks' label body := by
  intro before i after hSplit
  exact (hBody before i after hSplit).mono hBlocks

theorem bodyFits_nil
    (blocks : List Block)
    (label : Label) :
    BodyFits blocks label [] := by
  intro before i after hSplit
  simp at hSplit

theorem BodyFits.concat
    {blocks : List Block}
    {label : Label}
    {body : List Instr}
    {i : Instr}
    (hBody : BodyFits blocks label body)
    (hFits : i.Fits blocks label body) :
    BodyFits blocks label (body ++ [i]) := by
  intro before j after hSplit
  rcases List.eq_nil_or_concat after with
    rfl | ⟨after, last, rfl⟩
  · have hSame : body = before ∧ i = j := by
      simpa using hSplit
    rcases hSame with ⟨rfl, rfl⟩
    exact hFits
  · have hSame : body = before ++ j :: after := by
      rw [List.concat_eq_append, ← List.cons_append,
        ← List.append_assoc] at hSplit
      exact (List.append_inj' hSplit rfl).1
    exact hBody before j after hSame

theorem bodyFits_singleton
    {blocks : List Block}
    {label : Label}
    {i : Instr}
    (hFits : i.Fits blocks label []) :
    BodyFits blocks label [i] :=
  (bodyFits_nil blocks label).concat hFits

------------------------------------------------------------
-- Drafts with Their Operands
------------------------------------------------------------

/- All of a block has its operands. -/
def Block.Fits
    (blocks : List Block)
    (b : Block) :
    Prop :=
  BodyFits blocks b.label b.body ∧
    ∀ v ∈ b.terminator.operands,
      Held blocks b.label b.body v

theorem Block.Fits.mono
    {blocks blocks' : List Block}
    {b : Block}
    (hBlocks : blocks ⊆ blocks')
    (hFits : b.Fits blocks) :
    b.Fits blocks' := by
  refine ⟨hFits.1.mono hBlocks, fun v hMem => ?_⟩
  exact (hFits.2 v hMem).mono hBlocks (List.Subset.refl _)

namespace Draft

/- A value is at hand where a draft goes on. -/
def Holds
    (d : Draft)
    (v : Value) :
    Prop :=
  Held d.blocks d.label d.body.reverse v

/- Everything in a draft has its operands. -/
structure Supplied
    (d : Draft) :
    Prop where
  blocks : ∀ b ∈ d.blocks, b.Fits d.blocks
  body : BodyFits d.blocks d.label d.body.reverse

theorem supplied_empty :
    Supplied {} where
  blocks := by simp
  body := bodyFits_nil [] .entry

variable {d d' : Draft} {left right v : Value}

theorem Holds.arith
    (hHolds : d.Holds v)
    (op : ArithOp)
    (left right : Value) :
    (d.arith op left right).2.Holds v := by
  refine Held.mono (List.Subset.refl _) ?_ hHolds
  intro i hMem
  simp only [List.mem_reverse] at hMem ⊢
  exact List.mem_cons_of_mem _ hMem

theorem Supplied.arith
    (hSupplied : d.Supplied)
    (hLeft : d.Holds left)
    (hRight : d.Holds right)
    (op : ArithOp) :
    (d.arith op left right).2.Supplied ∧
      (d.arith op left right).2.Holds
        (d.arith op left right).1 := by
  refine ⟨⟨hSupplied.blocks, ?_⟩, .inl ?_⟩
  · have hBody :
        BodyFits d.blocks d.label
          (d.body.reverse ++
            [.arith d.results op left right]) :=
      hSupplied.body.concat ⟨hLeft, hRight⟩
    rw [← List.reverse_cons] at hBody
    exact hBody
  · exact ⟨.arith d.results op left right,
      by simp [Draft.arith], rfl⟩

/-
  What is at hand before a division is at hand in all blocks
  of the division, since the block that it starts in comes
  before them.
-/
theorem Holds.held_diamond
    (hHolds : d.Holds v)
    (hShaped : d.Shaped)
    {label : Label}
    (hLevel : d.divisions ≤ label.level)
    (hOther : ∀ k ≤ d.divisions, spine k ≠ label)
    (before : List Instr) :
    Held (d.diamond left right ++ d.blocks) label before
      v := by
  cases v with
  | number v => trivial
  | result n =>
      rcases hHolds with
        hDefined | ⟨b, hMem, k, hLess, hLabel, _, hDefined⟩
      · refine .inr ⟨⟨d.label,
          d.body.reverse ++
            [.isEqual d.results right (.number 0)],
          .branch (.result d.results) (.zero d.divisions)
            (.check d.divisions)⟩,
          by simp [diamond], d.divisions, hLevel,
          hShaped.label, ?_, ?_⟩
        · rw [hShaped.label]
          exact hOther _ (Nat.le_refl _)
        · exact hDefined.mono (List.subset_append_left _ _)
      · rw [hShaped.label, level_spine] at hLess
        refine .inr ⟨b, List.mem_append_right _ hMem, k,
          Nat.le_trans hLess hLevel, hLabel, ?_, hDefined⟩
        rw [hLabel]
        exact hOther k hLess

theorem Holds.division
    (hHolds : d.Holds v)
    (hShaped : d.Shaped)
    (left right : Value) :
    (d.division left right).2.Holds v := by
  have hLevel :
      d.divisions ≤ (Label.join d.divisions).level :=
    Nat.le_succ d.divisions
  have hOther :
      ∀ k ≤ d.divisions, spine k ≠ .join d.divisions := by
    intro k hLess hSame
    have hEqual := congrArg Label.level hSame
    rw [level_spine] at hEqual
    exact absurd (hEqual ▸ hLess) (Nat.not_succ_le_self _)
  rw [Holds, blocks_division]
  exact hHolds.held_diamond hShaped hLevel hOther _

/- The blocks that a division finishes have operands. -/
theorem Supplied.fits_diamond
    (hSupplied : d.Supplied)
    (hShaped : d.Shaped)
    (hLeft : d.Holds left)
    (hRight : d.Holds right)
    {b : Block}
    (hMem : b ∈ d.diamond left right) :
    b.Fits (d.diamond left right ++ d.blocks) := by
  have hSubset :
      d.blocks ⊆ d.diamond left right ++ d.blocks :=
    List.subset_append_right _ _
  have hCase :
      ∀ v, d.Holds v →
        ∀ label : Label, label.level = d.divisions →
          (∀ k, spine k ≠ label) →
          Held (d.diamond left right ++ d.blocks) label []
            v :=
    fun v hHolds label hLevel hOther =>
      hHolds.held_diamond hShaped (Nat.le_of_eq hLevel.symm)
        (fun k _ => hOther k) []
  -- The cases of the division come first, newest first; the
  -- last of the blocks is the one that it starts in.
  simp only [diamond, List.mem_cons, List.not_mem_nil,
    or_false] at hMem
  rcases hMem with rfl | rfl | rfl | rfl | rfl
  · refine ⟨bodyFits_singleton ⟨?_, ?_⟩, by
      simp [Terminator.operands]⟩
    · exact hCase left hLeft _ rfl
        fun k => (spine_ne_case k d.divisions).2.2
    · exact hCase right hRight _ rfl
        fun k => (spine_ne_case k d.divisions).2.2
  · refine ⟨bodyFits_singleton ⟨?_, trivial⟩, by
      simp [Terminator.operands]⟩
    exact hCase left hLeft _ rfl
      fun k => (spine_ne_case k d.divisions).2.1
  · refine ⟨bodyFits_singleton ⟨?_, trivial⟩, ?_⟩
    · exact hCase right hRight _ rfl
        fun k => (spine_ne_case k d.divisions).1
    · intro v hOperand
      cases List.mem_singleton.mp hOperand
      exact .inl ⟨_, List.mem_cons_self, rfl⟩
  · exact ⟨bodyFits_singleton trivial, by
      simp [Terminator.operands]⟩
  · constructor
    · refine (hSupplied.body.mono hSubset).concat
        ⟨?_, trivial⟩
      exact Held.mono hSubset (List.Subset.refl _) hRight
    · intro v hOperand
      cases List.mem_singleton.mp hOperand
      exact .inl ⟨.isEqual d.results right (.number 0),
        by simp, rfl⟩

theorem Supplied.division
    (hSupplied : d.Supplied)
    (hShaped : d.Shaped)
    (hLeft : d.Holds left)
    (hRight : d.Holds right) :
    (d.division left right).2.Supplied ∧
      (d.division left right).2.Holds
        (d.division left right).1 := by
  refine ⟨⟨?_, ?_⟩, .inl ⟨_, List.mem_cons_self, rfl⟩⟩
  · rw [blocks_division]
    intro b hMem
    rcases List.mem_append.mp hMem with hNew | hOld
    · exact hSupplied.fits_diamond hShaped hLeft hRight hNew
    · exact (hSupplied.blocks b hOld).mono
        (List.subset_append_right _ _)
  · rw [blocks_division]
    refine bodyFits_singleton
      ⟨rfl, ⟨d.divisions, rfl, rfl, rfl⟩, ?_, ?_⟩
    · refine ⟨⟨.negate d.divisions,
          [.arith (d.results + 2) .mul left (.number (-1))],
          .jump (.join d.divisions)⟩,
        by simp [diamond], rfl, List.mem_cons_self, ?_⟩
      intro n hValue
      cases hValue
      exact ⟨_, List.mem_cons_self, rfl⟩
    · refine ⟨⟨.divide d.divisions,
          [.arith (d.results + 3) .sdiv left right],
          .jump (.join d.divisions)⟩,
        by simp [diamond], rfl, List.mem_cons_self, ?_⟩
      intro n hValue
      cases hValue
      exact ⟨_, List.mem_cons_self, rfl⟩

/- What is at hand stays at hand while a draft grows. -/
theorem Holds.of_grows
    (hHolds : d.Holds v)
    (hShaped : d.Shaped)
    (hGrows : d.Grows d') :
    d'.Holds v := by
  induction hGrows with
  | refl => exact hHolds
  | @tail d₁ d₂ hFirst hLast ih =>
      cases hLast with
      | arith op left right => exact ih.arith op left right
      | division left right =>
          exact ih.division (Grows.shaped hFirst hShaped)
            left right

end Draft

end Llvm

------------------------------------------------------------
-- Finished Drafts
------------------------------------------------------------

namespace Llvm

theorem Instr.Fits.held
    {blocks : List Block}
    {label : Label}
    {before : List Instr}
    {i : Instr}
    (hFits : i.Fits blocks label before)
    {v : Value}
    (hMem : v ∈ i.operands) :
    Held blocks label before v := by
  cases i with
  | arith n op left right =>
      rcases List.mem_pair.mp hMem with rfl | rfl
      · exact hFits.1
      · exact hFits.2
  | isEqual n left right =>
      rcases List.mem_pair.mp hMem with rfl | rfl
      · exact hFits.1
      · exact hFits.2
  | phi n first second => cases hMem
  | callAbort => cases hMem

theorem Incoming.Reaches.edge
    {blocks : List Block}
    {target : Label}
    {i : Incoming}
    (hReaches : i.Reaches blocks target) :
    Edge blocks i.source target := by
  rcases hReaches with ⟨b, hMem, hSource, hTarget, _⟩
  exact ⟨b, hMem, hSource, hTarget⟩

theorem Incoming.Reaches.availableFrom
    {blocks : List Block}
    {target : Label}
    {i : Incoming}
    (hReaches : i.Reaches blocks target) :
    AvailableFrom blocks i.source i.value := by
  rcases hReaches with ⟨b, hMem, hSource, _, hDefined⟩
  cases hValue : i.value with
  | number v => trivial
  | result n =>
      refine ⟨b, hMem, hDefined n hValue, ?_⟩
      rw [hSource]
      exact dominates_self blocks i.source

namespace Draft

variable {d : Draft} {v : Value}

theorem mem_blocks_finish
    {b : Block} :
    b ∈ (d.finish v).blocks ↔
      b = ⟨d.label, d.body.reverse, .ret v⟩ ∨
        b ∈ d.blocks := by
  rw [finish, List.mem_reverse, List.mem_cons]

theorem Shaped.flow_finish
    (hShaped : d.Shaped)
    {l l' : Label}
    (hEdge : Edge (d.finish v).blocks l l') :
    Flow l l' ∧ l' ∈ d.labels := by
  rcases hEdge with ⟨b, hMem, rfl, hTarget⟩
  rcases mem_blocks_finish.mp hMem with rfl | hMem
  · cases hTarget
  · exact hShaped.flow b hMem l' hTarget

theorem Supplied.fits_finish
    (hSupplied : d.Supplied)
    (hHolds : d.Holds v)
    {b : Block}
    (hMem : b ∈ (d.finish v).blocks) :
    b.Fits (d.finish v).blocks := by
  have hSubset : d.blocks ⊆ (d.finish v).blocks :=
    fun b hMem => mem_blocks_finish.mpr (.inr hMem)
  rcases mem_blocks_finish.mp hMem with rfl | hMem
  · refine ⟨hSupplied.body.mono hSubset, ?_⟩
    intro w hOperand
    cases List.mem_singleton.mp hOperand
    exact Held.mono hSubset (List.Subset.refl _) hHolds
  · exact (hSupplied.blocks b hMem).mono hSubset

theorem isValid_finish
    (hDraft : d.WellFormed)
    (hShaped : d.Shaped)
    (hSupplied : d.Supplied)
    (hHolds : d.Holds v) :
    (d.finish v).IsValid := by
  have hLabels :
      (d.finish v).blocks.map Block.label =
        d.labels.reverse := by
    rw [finish, List.map_reverse]
    rfl
  have hFlow :
      ∀ l l', Edge (d.finish v).blocks l l' → Flow l l' :=
    fun l l' hEdge => (hShaped.flow_finish hEdge).1
  have hFits :
      ∀ b ∈ (d.finish v).blocks,
        b.Fits (d.finish v).blocks :=
    fun b hMem => hSupplied.fits_finish hHolds hMem
  constructor
  case entry =>
    rw [← List.head?_map, hLabels, List.head?_reverse]
    exact hDraft.entry
  case reached =>
    intro b hMem
    have hLabel : b.label ∈ d.labels := by
      rw [← List.mem_reverse, ← hLabels]
      exact List.mem_map_of_mem hMem
    rcases hShaped.reached b.label hLabel with ⟨ls, hPath⟩
    exact ⟨ls, hPath.mono fun b hMem =>
      mem_blocks_finish.mpr (.inr hMem)⟩
  case names =>
    have hNodup : (d.labels.reverse.map Label.name).Nodup :=
      (List.nodup_reverse.mpr hDraft.nodup).map
        fun _ _ => Label.name_injective
    rw [← hLabels, List.map_map] at hNodup
    exact hNodup
  case results =>
    have hInstrs :
        (d.finish v).blocks.flatMap Block.body =
          d.instrs := by
      simp [finish, instrs]
    rw [hInstrs, hShaped.numbered]
    exact List.nodup_range
  case terminators =>
    intro b hMem
    exact ⟨isTerminator_terminator b.terminator,
      fun i _ => not_isTerminator_instr i⟩
  case targets =>
    intro b hMem l hTarget
    rcases hShaped.flow_finish ⟨b, hMem, rfl, hTarget⟩ with
      ⟨hStep, hLabel⟩
    refine ⟨hStep.ne_entry, ?_⟩
    rw [← List.mem_reverse, ← hLabels] at hLabel
    exact List.mem_map.mp hLabel
  case phis =>
    intro b hMem before n first second after hSplit
    rcases (hFits b hMem).1 before _ after hSplit with
      ⟨hFirst, ⟨k, hJoin, hNegate, hDivide⟩, hLeft,
        hRight⟩
    refine ⟨hFirst, by simp [hNegate, hDivide], fun l => ?_,
      hLeft.availableFrom, hRight.availableFrom⟩
    constructor
    · intro hEdge
      have hStep := hFlow _ _ hEdge
      rw [hJoin, Flow.join_iff] at hStep
      rwa [hNegate, hDivide]
    · rintro (rfl | rfl)
      · exact hLeft.edge
      · exact hRight.edge
  case operands =>
    intro b hMem before i after hSplit w hOperand
    have hInstr := (hFits b hMem).1 before i after hSplit
    exact (hInstr.held hOperand).available hFlow
  case outcomes =>
    intro b hMem w hOperand
    exact ((hFits b hMem).2 w hOperand).available hFlow

end Draft

end Llvm

------------------------------------------------------------
-- Drafts of Expressions
------------------------------------------------------------

/- The number of divisions in a tree. -/
def Expr.divisions : Expr → Nat
| .missing => 0
| .number _ => 0
| .unary _ e => e.divisions
| .binary .div l r => l.divisions + r.divisions + 1
| .binary _ l r => l.divisions + r.divisions

namespace Expr

open Llvm

theorem divisions_of_load
    {e : Expr}
    {v : Value}
    {d d' : Draft}
    (hLoad : e.load d = .ok (v, d')) :
    d'.divisions = d.divisions + e.divisions := by
  induction e generalizing v d d' with
  | missing => cases hLoad
  | number value =>
      cases hLoad
      rfl
  | unary op x ih =>
      rcases load_unary_eq_ok_iff.mp hLoad with
        ⟨w, d₁, hOperand, hOp⟩
      have hFirst := ih hOperand
      cases op with
      | plus =>
          cases hOp
          exact hFirst
      | minus =>
          cases hOp
          exact hFirst
      | unknown s h => cases hOp
  | binary op l r ihl ihr =>
      rcases load_binary_eq_ok_iff.mp hLoad with
        ⟨left, d₁, right, d₂, hLeft, hRight, hOp⟩
      have hSum :
          d₂.divisions =
            d.divisions + (l.divisions + r.divisions) := by
        rw [ihr hRight, ihl hLeft, Nat.add_assoc]
      cases op with
      | add | sub | mul =>
          cases hOp
          exact hSum
      | div =>
          cases hOp
          exact congrArg (· + 1) hSum
      | unknown s h => cases hOp

/- Everything in the draft of a tree has its operands. -/
theorem supplied_of_load
    {e : Expr}
    {v : Value}
    {d d' : Draft}
    (hLoad : e.load d = .ok (v, d'))
    (hShaped : d.Shaped)
    (hSupplied : d.Supplied) :
    d'.Supplied ∧ d'.Holds v := by
  induction e generalizing v d d' with
  | missing => cases hLoad
  | number value =>
      cases hLoad
      exact ⟨hSupplied, trivial⟩
  | unary op x ih =>
      rcases load_unary_eq_ok_iff.mp hLoad with
        ⟨w, d₁, hOperand, hOp⟩
      rcases ih hOperand hShaped hSupplied with
        ⟨hFirst, hHolds⟩
      cases op with
      | plus =>
          cases hOp
          exact ⟨hFirst, hHolds⟩
      | minus =>
          cases hOp
          have hOne : d₁.Holds (.number (-1)) := trivial
          exact hFirst.arith hHolds hOne .mul
      | unknown s h => cases hOp
  | binary op l r ihl ihr =>
      rcases load_binary_eq_ok_iff.mp hLoad with
        ⟨left, d₁, right, d₂, hLeft, hRight, hOp⟩
      have hShaped₁ := (grows_of_load hLeft).1.shaped hShaped
      have hShaped₂ :=
        (grows_of_load hRight).1.shaped hShaped₁
      rcases ihl hLeft hShaped hSupplied with
        ⟨hSupplied₁, hHolds₁⟩
      rcases ihr hRight hShaped₁ hSupplied₁ with
        ⟨hSupplied₂, hHolds₂⟩
      -- The left operand is still at hand where the right
      -- one has been computed.
      have hHolds :=
        hHolds₁.of_grows hShaped₁ (grows_of_load hRight).1
      cases op with
      | add | sub | mul =>
          cases hOp
          exact hSupplied₂.arith hHolds hHolds₂ _
      | div =>
          cases hOp
          exact hSupplied₂.division hShaped₂ hHolds hHolds₂
      | unknown s h => cases hOp

/-
  Every legal tree has a function. The function has five
  blocks for each division and one more, and it is valid.
-/
theorem exists_valid_llvm
    {e : Expr}
    (hLegal : e.IsLegal) :
    ∃ f,
      e.llvm = .ok f ∧
        f.blocks.length = 5 * e.divisions + 1 ∧
        f.IsValid := by
  rcases exists_load_of_isLegal hLegal {} with
    ⟨v, d, hLoad⟩
  have hGrows := (grows_of_load hLoad).1
  have hShaped := hGrows.shaped Draft.shaped_empty
  rcases supplied_of_load hLoad Draft.shaped_empty
      Draft.supplied_empty with
    ⟨hSupplied, hHolds⟩
  have hDivisions : d.divisions = e.divisions := by
    rw [divisions_of_load hLoad]
    exact Nat.zero_add e.divisions
  refine ⟨d.finish v, ?_, ?_, ?_⟩
  · rw [llvm, hLoad]
    rfl
  · rw [Draft.finish, List.length_reverse, List.length_cons,
      hShaped.count, hDivisions]
  · exact Draft.isValid_finish
      (hGrows.wellFormed Draft.wellFormed_empty) hShaped
      hSupplied hHolds

/- The function of `(7 / 2) / -(3 / 4)` has 16 blocks. -/
theorem valid_llvm_of_nested_quotients :
    let e : Expr :=
      .binary .div
        (.binary .div (.number 7) (.number 2))
        (.unary .minus
          (.binary .div (.number 3) (.number 4)))
    e.IsLegal ∧
      ∃ f, e.llvm = .ok f ∧ f.blocks.length = 16 ∧
        f.IsValid := by
  intro e
  have hLegal : e.IsLegal := by
    simp [e, IsLegal, BinaryOp.IsKnown, UnaryOp.IsKnown]
  exact ⟨hLegal, exists_valid_llvm hLegal⟩

end Expr

end ExprCompiler
