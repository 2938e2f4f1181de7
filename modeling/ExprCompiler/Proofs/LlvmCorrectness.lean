import ExprCompiler.Proofs.LlvmDrafts

/-
  LLVM functions compute what evaluation computes.

  Key definitions include:
    * `Llvm.State.At`
    * `Llvm.State.Computes`

  Main declarations:
    * `Llvm.State.delivers_arith`
    * `Llvm.State.computes_division`
    * `Llvm.State.computes_of_load`
    * `Expr.llvm_computes_eval`

  Execution goes from the place where a draft was extended
  to the place where it was extended next. It has the value
  of the tree there, and the results from before are kept.
-/

------------------------------------------------------------
-- Places in a Function
------------------------------------------------------------

namespace ExprCompiler

namespace Llvm

namespace State

open Transition

/- Execution is where a draft in the function went on. -/
structure At
    (f : Function)
    (d : Draft)
    (s : State) :
    Prop where
  label : s.label = d.label
  block :
    f.block? d.label.name =
      some ⟨d.label, d.body.reverse ++ s.body, s.terminator⟩

/-
  Execution comes to a place where a value has the given
  number, and keeps the results below a bound.
-/
def Delivers
    (f : Function)
    (bound : Nat)
    (d : Draft)
    (v : Value)
    (x : Int32)
    (s : State) :
    Prop :=
  ∃ t, Reaches (step f) s t ∧ t.At f d ∧
    t.number? v = some x ∧ s.AgreesBelow bound t

/- Execution delivers a number, or aborts where it fails. -/
def Computes
    (f : Function)
    (bound : Nat)
    (d : Draft)
    (v : Value)
    (s : State) :
    Except Failure Int32 → Prop
| .ok x => s.Delivers f bound d v x
| .error _ => ∃ t, Ends (step f) s t .aborted

variable {f : Function}
variable {d d' : Draft}
variable {s s' : State}

/- What a block holds behind a draft is what is left. -/
theorem At.ahead_eq
    (hAt : s.At f d)
    {rest : List Instr}
    {terminator : Terminator}
    (hBlock :
      f.block? d.label.name =
        some ⟨d.label, d.body.reverse ++ rest, terminator⟩) :
    s.body = rest ∧ s.terminator = terminator := by
  have hSame := hAt.block.symm.trans hBlock
  simpa using hSame

theorem Computes.of_reaches
    {bound bound' : Nat}
    {v : Value}
    {out : Except Failure Int32}
    (hOut : s'.Computes f bound' d v out)
    (hReaches : Reaches (step f) s s')
    (hAgrees : s.AgreesBelow bound s')
    (hLe : bound ≤ bound') :
    s.Computes f bound d v out := by
  cases out with
  | ok x =>
      rcases hOut with ⟨t, hRest, hAt, hValue, hKept⟩
      exact ⟨t, hReaches.trans hRest, hAt, hValue,
        hAgrees.trans hKept hLe⟩
  | error e =>
      rcases hOut with ⟨t, hRest, hHalt⟩
      exact ⟨t, hReaches.trans hRest, hHalt⟩

------------------------------------------------------------
-- Arithmetic
------------------------------------------------------------

variable {left right : Value} {x y z : Int32}

/- Multiplying by minus one is negation. -/
theorem compute?_mul_neg_one
    (x : Int32) :
    ArithOp.compute? .mul x (-1) = some (-x) := by
  rw [ArithOp.compute?, Int32.mul_neg, Int32.mul_one]

/- An instruction delivers its result. -/
theorem delivers_arith
    {op : ArithOp}
    (hContains : f.Contains (d.arith op left right).2)
    (hAt : s.At f d)
    (hLeft : s.number? left = some x)
    (hRight : s.number? right = some y)
    (hCompute : op.compute? x y = some z) :
    s.Delivers f d.results (d.arith op left right).2
      (d.arith op left right).1 z := by
  rcases hContains.current with ⟨rest, terminator, hBlock⟩
  have hAhead :
      f.block? d.label.name =
        some ⟨d.label,
          d.body.reverse ++
            .arith d.results op left right :: rest,
          terminator⟩ := by
    simpa [Draft.arith] using hBlock
  rcases hAt.ahead_eq hAhead with ⟨hBody, hTerminator⟩
  refine ⟨_, .single (step_arith hBody hLeft hRight hCompute),
    ⟨hAt.label, ?_⟩, number?_assign_self _ _ _,
    agreesBelow_assign _ (Nat.le_refl _)⟩
  rw [hBlock, ← hTerminator]
  rfl

------------------------------------------------------------
-- Divisions
------------------------------------------------------------

/- The abort of a division is reached on a zero. -/
theorem ends_aborted_of_zero
    (hContains : f.Contains (d.division left right).2)
    (hAt : s.At f d)
    (hRight : s.number? right = some 0) :
    ∃ t, Ends (step f) s t .aborted := by
  rcases hAt.ahead_eq hContains.block?_of_division with
    ⟨hBody, hTerminator⟩
  have hZero :=
    hContains.blocks
      ⟨.zero d.divisions, [.callAbort], .unreachable⟩
      (by simp [Draft.division])
  exact ⟨_, reaches_of_branch hBody hTerminator hRight rfl
    hZero, rfl⟩

/- Any other divisor leads to the block of its case. -/
theorem reaches_case
    {b : Block}
    (hContains : f.Contains (d.division left right).2)
    (hAt : s.At f d)
    (hBelow : right.IsBelow d.results)
    (hRight : s.number? right = some y)
    (hNonzero : y ≠ 0)
    (hBlock :
      f.block?
        (if y = -1 then Label.negate d.divisions
          else Label.divide d.divisions).name = some b) :
    ∃ t, Reaches (step f) s t ∧ t.label = b.label ∧
      t.body = b.body ∧ t.terminator = b.terminator ∧
      s.AgreesBelow d.results t := by
  rcases hAt.ahead_eq hContains.block?_of_division with
    ⟨hBody, hTerminator⟩
  let check : Block :=
    ⟨.check d.divisions,
      [.isEqual (d.results + 1) right (.number (-1))],
      .branch (.result (d.results + 1))
        (.negate d.divisions) (.divide d.divisions)⟩
  have hCheck : f.block? check.label.name = some check :=
    hContains.blocks check
      (by simp [Draft.division, check])
  have hFirst :=
    reaches_of_branch (y := 0) hBody hTerminator hRight rfl
      (by rwa [if_neg hNonzero])
  have hKept :
      s.AgreesBelow d.results
        (check.start (some s.label)
          (s.assign d.results (.flag (y == 0))).results) :=
    agreesBelow_assign _ (Nat.le_refl _)
  have hRight' := (hKept.number?_eq hBelow).trans hRight
  have hSecond :=
    reaches_of_branch rfl rfl hRight' rfl hBlock
  exact ⟨_, hFirst.trans hSecond, rfl, rfl, rfl,
    hKept.trans (agreesBelow_assign _ (Nat.le_succ _))
      (Nat.le_refl _)⟩

/- The source of control selects the result of its case. -/
theorem incoming?_of_case
    {n i j : Nat}
    (hCase :
      s.source = some (.negate n) ∧
          s.number? (.result i) = some z ∨
        s.source = some (.divide n) ∧
          s.number? (.result j) = some z) :
    s.incoming? ⟨.result i, .negate n⟩
        ⟨.result j, .divide n⟩ = some z := by
  have hNames :
      (Label.divide n).name ≠ (Label.negate n).name := by
    intro hName
    cases Label.name_injective hName
  rcases hCase with ⟨hSource, hValue⟩ | ⟨hSource, hValue⟩
  · simp [incoming?, hSource, hValue]
  · simp [incoming?, hSource, hValue, hNames]

/- The cases of a division meet with the quotient. -/
theorem delivers_of_case
    {op : ArithOp}
    {v : Value}
    {k : Nat}
    {source : Label}
    (hContains : f.Contains (d.division left right).2)
    (hCase :
      source = .negate d.divisions ∧ k = d.results + 2 ∨
        source = .divide d.divisions ∧ k = d.results + 3)
    (hLabel : s.label = source)
    (hBody : s.body = [.arith k op left v])
    (hTerminator :
      s.terminator = .jump (.join d.divisions))
    (hLeft : s.number? left = some x)
    (hRight : s.number? v = some y)
    (hCompute : op.compute? x y = some z) :
    s.Delivers f d.results (d.division left right).2
      (d.division left right).1 z := by
  rcases hContains.current with ⟨rest, terminator, hBlock⟩
  have hJump :=
    reaches_of_jump hBody hTerminator hLeft hRight hCompute
      hBlock
  have hValue := number?_assign_self k z s
  have hKept : s.AgreesBelow d.results
      (s.assign k (.number z)) := by
    apply agreesBelow_assign
    omega
  refine ⟨_, hJump.trans (.single (step_phi rfl ?_)),
    ⟨rfl, hBlock⟩, number?_assign_self _ _ _,
    hKept.trans (agreesBelow_assign _ ?_) (Nat.le_refl _)⟩
  · apply incoming?_of_case
    rcases hCase with ⟨rfl, rfl⟩ | ⟨rfl, rfl⟩
    · exact .inl ⟨congrArg some hLabel, hValue⟩
    · exact .inr ⟨congrArg some hLabel, hValue⟩
  · exact Nat.le_add_right _ 4

/- A divisor other than zero leads to the quotient. -/
theorem delivers_quotient
    {op : ArithOp}
    {v : Value}
    {w : Int32}
    {k : Nat}
    {source : Label}
    (hContains : f.Contains (d.division left right).2)
    (hAt : s.At f d)
    (hLeftBelow : left.IsBelow d.results)
    (hRightBelow : right.IsBelow d.results)
    (hBelow : v.IsBelow d.results)
    (hLeft : s.number? left = some x)
    (hRight : s.number? right = some y)
    (hOperand : s.number? v = some w)
    (hNonzero : y ≠ 0)
    (hSource :
      (if y = -1 then Label.negate d.divisions
        else Label.divide d.divisions) = source)
    (hCase :
      source = .negate d.divisions ∧ k = d.results + 2 ∨
        source = .divide d.divisions ∧ k = d.results + 3)
    (hBlock :
      ⟨source, [.arith k op left v],
          .jump (.join d.divisions)⟩ ∈
        (d.division left right).2.blocks)
    (hCompute : op.compute? x w = some z) :
    s.Computes f d.results (d.division left right).2
      (d.division left right).1 (.ok z) := by
  have hFound := hContains.blocks _ hBlock
  rcases reaches_case hContains hAt hRightBelow hRight
      hNonzero (by rwa [hSource]) with
    ⟨t, hReaches, hLabel, hBody, hTerminator, hKept⟩
  have hLeft' := (hKept.number?_eq hLeftBelow).trans hLeft
  have hOperand' := (hKept.number?_eq hBelow).trans hOperand
  have hMeets :
      t.Computes f d.results (d.division left right).2
        (d.division left right).1 (.ok z) :=
    delivers_of_case hContains hCase hLabel hBody
      hTerminator hLeft' hOperand' hCompute
  exact hMeets.of_reaches hReaches hKept (Nat.le_refl _)

/- A division computes the quotient. -/
theorem computes_division
    (hContains : f.Contains (d.division left right).2)
    (hAt : s.At f d)
    (hLeftBelow : left.IsBelow d.results)
    (hRightBelow : right.IsBelow d.results)
    (hLeft : s.number? left = some x)
    (hRight : s.number? right = some y) :
    s.Computes f d.results (d.division left right).2
      (d.division left right).1 (divide x y) := by
  unfold divide
  by_cases hZero : y = 0
  · rw [hZero] at hRight
    rw [if_pos hZero]
    exact ends_aborted_of_zero hContains hAt hRight
  rw [if_neg hZero]
  by_cases hOnes : y = -1
  · have hProduct :
        ArithOp.compute? .mul x (-1) = some (x / y) := by
      rw [hOnes, int32_div_neg_one, compute?_mul_neg_one]
    exact delivers_quotient (v := .number (-1)) hContains
      hAt hLeftBelow hRightBelow trivial hLeft hRight rfl
      hZero (if_pos hOnes) (.inl ⟨rfl, rfl⟩)
      (by simp [Draft.division]) hProduct
  · have hQuotient :
        ArithOp.compute? .sdiv x y = some (x / y) := by
      simp [ArithOp.compute?, hZero, hOnes]
    exact delivers_quotient hContains hAt hLeftBelow
      hRightBelow hRightBelow hLeft hRight hRight hZero
      (if_neg hOnes) (.inr ⟨rfl, rfl⟩)
      (by simp [Draft.division]) hQuotient

------------------------------------------------------------
-- Trees
------------------------------------------------------------

theorem computes_unary
    {op : UnaryOp}
    {w v : Value}
    (hLoad : op.load w d = .ok (v, d'))
    (hContains : f.Contains d')
    (hAt : s.At f d)
    (hOperand : s.number? w = some x) :
    s.Computes f d.results d' v (op.apply x) := by
  cases op with
  | plus =>
      cases hLoad
      exact ⟨s, .refl s, hAt, hOperand, fun _ _ => rfl⟩
  | minus =>
      cases hLoad
      exact delivers_arith hContains hAt hOperand rfl
        (compute?_mul_neg_one x)
  | unknown symbol h => cases hLoad

theorem computes_binary
    {op : BinaryOp}
    {v : Value}
    (hLoad : op.load left right d = .ok (v, d'))
    (hContains : f.Contains d')
    (hAt : s.At f d)
    (hLeftBelow : left.IsBelow d.results)
    (hRightBelow : right.IsBelow d.results)
    (hLeft : s.number? left = some x)
    (hRight : s.number? right = some y) :
    s.Computes f d.results d' v (op.apply x y) := by
  cases op with
  | add | sub | mul =>
      cases hLoad
      exact delivers_arith hContains hAt hLeft hRight rfl
  | div =>
      cases hLoad
      exact computes_division hContains hAt hLeftBelow
        hRightBelow hLeft hRight
  | unknown symbol h => cases hLoad

/-
  The instructions of a tree compute its value. A function
  has room for more of them, so the statement is about every
  function that contains the draft behind the tree.
-/
theorem computes_of_load
    {e : Expr}
    {v : Value}
    (hLoad : e.load d = .ok (v, d'))
    (hContains : f.Contains d')
    (hAt : s.At f d) :
    s.Computes f d.results d' v e.eval := by
  induction e generalizing v d d' s with
  | missing => cases hLoad
  | number value =>
      cases hLoad
      exact ⟨s, .refl s, hAt, rfl, fun _ _ => rfl⟩
  | unary op e ih =>
      rcases Expr.load_unary_eq_ok_iff.mp hLoad with
        ⟨w, d₁, hOperand, hOp⟩
      rcases Expr.grows_of_load hOperand with
        ⟨hGrows, hBelow⟩
      have hInner :=
        hContains.of_grows (op.grows_of_load hOp hBelow).1
      have hFirst := ih hOperand hInner hAt
      cases hEval : e.eval with
      | error failure =>
          rw [hEval] at hFirst
          rw [Expr.eval, hEval]
          exact hFirst
      | ok x =>
          rw [hEval] at hFirst
          rw [Expr.eval, hEval]
          rcases hFirst with
            ⟨t, hReaches, hAt₁, hValue, hKept⟩
          have hRest :=
            computes_unary hOp hContains hAt₁ hValue
          exact hRest.of_reaches hReaches hKept
            hGrows.results_le
  | binary op l r ihl ihr =>
      rcases Expr.load_binary_eq_ok_iff.mp hLoad with
        ⟨left, d₁, right, d₂, hLeft, hRight, hOp⟩
      rcases Expr.grows_of_load hLeft with
        ⟨hLeftGrows, hLeftBelow⟩
      rcases Expr.grows_of_load hRight with
        ⟨hRightGrows, hRightBelow⟩
      have hContains₂ :=
        hContains.of_grows (op.grows_of_load hOp).1
      have hContains₁ := hContains₂.of_grows hRightGrows
      have hFirst := ihl hLeft hContains₁ hAt
      cases hEvalLeft : l.eval with
      | error failure =>
          rw [hEvalLeft] at hFirst
          rw [Expr.eval, hEvalLeft]
          exact hFirst
      | ok x =>
          rw [hEvalLeft] at hFirst
          rcases hFirst with
            ⟨t₁, hReaches₁, hAt₁, hValue₁, hKept₁⟩
          have hSecond := ihr hRight hContains₂ hAt₁
          cases hEvalRight : r.eval with
          | error failure =>
              rw [hEvalRight] at hSecond
              rw [Expr.eval, hEvalLeft, hEvalRight]
              exact hSecond.of_reaches hReaches₁ hKept₁
                hLeftGrows.results_le
          | ok y =>
              rw [hEvalRight] at hSecond
              rw [Expr.eval, hEvalLeft, hEvalRight]
              rcases hSecond with
                ⟨t₂, hReaches₂, hAt₂, hValue₂, hKept₂⟩
              have hValue₁' :=
                (hKept₂.number?_eq hLeftBelow).trans hValue₁
              have hLe := hRightGrows.results_le
              have hRest :=
                computes_binary hOp hContains hAt₂
                  (hLeftBelow.mono hLe) hRightBelow hValue₁'
                  hValue₂
              exact hRest.of_reaches
                (hReaches₁.trans hReaches₂)
                (hKept₁.trans hKept₂ hLeftGrows.results_le)
                (Nat.le_trans hLeftGrows.results_le hLe)

/- A function whose tree is computed returns its value. -/
theorem ends_returned_of_at
    {v : Value}
    (hDraft : d.WellFormed)
    (hAt : s.At (d.finish v) d)
    (hValue : s.number? v = some x) :
    Ends (step (d.finish v)) s s (.returned x) := by
  have hBlock :
      (d.finish v).block? d.label.name =
        some ⟨d.label, d.body.reverse ++ [], .ret v⟩ := by
    rw [List.append_nil]
    exact hDraft.block?_finish v List.mem_cons_self
  rcases hAt.ahead_eq hBlock with ⟨hBody, hTerminator⟩
  refine ⟨.refl s, ?_⟩
  simp [step, hBody, leave, hTerminator, hValue]

end State

end Llvm

------------------------------------------------------------
-- Correctness
------------------------------------------------------------

namespace Expr

open Llvm Transition

/- The function of a tree returns its value or aborts. -/
theorem exists_llvm_ends
    {e : Expr}
    (hLegal : e.IsLegal) :
    ∃ f s, e.llvm = .ok f ∧ f.start? = some s ∧
      (∀ x, e.eval = .ok x →
        ∃ t, Ends (State.step f) s t (.returned x)) ∧
      (∀ failure, e.eval = .error failure →
        ∃ t, Ends (State.step f) s t .aborted) := by
  rcases exists_load_of_isLegal hLegal {} with
    ⟨v, d, hLoad⟩
  have hLlvm : e.llvm = .ok (d.finish v) := by
    rw [llvm, hLoad]
    rfl
  have hDraft : d.WellFormed :=
    (grows_of_load hLoad).1.wellFormed Draft.wellFormed_empty
  rcases hDraft.start?_finish v with
    ⟨⟨label, body, terminator⟩, hStart, rfl, hBlock⟩
  have hAt :
      (Block.start none (fun _ => none)
        ⟨.entry, body, terminator⟩).At (d.finish v) {} :=
    ⟨rfl, hBlock⟩
  have hComputes :=
    State.computes_of_load hLoad (hDraft.contains_finish v)
      hAt
  refine ⟨d.finish v, _, hLlvm, hStart, ?_, ?_⟩
  · intro x hEval
    rw [hEval] at hComputes
    rcases hComputes with ⟨t, hReaches, hAt, hValue, _⟩
    have hReturns :=
      State.ends_returned_of_at hDraft hAt hValue
    exact ⟨t, hReaches, hReturns.2⟩
  · intro failure hEval
    rw [hEval] at hComputes
    exact hComputes

/-
  Every legal tree has a function. Entered at its first
  block, the function returns the value of the tree if there
  is one, and aborts if and only if evaluation fails at a
  division. It never does anything undefined.
-/
theorem llvm_computes_eval
    {e : Expr}
    (hLegal : e.IsLegal) :
    ∃ f s, e.llvm = .ok f ∧ f.start? = some s ∧
      (∀ v, e.eval = .ok v →
        ∃ t, Ends (State.step f) s t (.returned v)) ∧
      ((∃ t, Ends (State.step f) s t .aborted) ↔
        ∃ failure a, e.eval = .error failure ∧
          failure.cause = .arithmetic a) ∧
      ∀ t, ¬ Ends (State.step f) s t .undefined := by
  rcases exists_llvm_ends hLegal with
    ⟨f, s, hLlvm, hStart, hReturns, hAborts⟩
  refine ⟨f, s, hLlvm, hStart, hReturns, ⟨?_, ?_⟩, ?_⟩
  · rintro ⟨t, hAborted⟩
    cases hEval : e.eval with
    | ok v =>
        rcases hReturns v hEval with ⟨t', hReturned⟩
        cases (hAborted.unique hReturned).2
    | error failure =>
        rcases eval_error_of_isLegal hLegal hEval with
          ⟨left, rfl⟩
        exact ⟨_, _, rfl, rfl⟩
  · rintro ⟨failure, a, hEval, _⟩
    exact hAborts failure hEval
  · intro t hUndefined
    cases hEval : e.eval with
    | ok v =>
        rcases hReturns v hEval with ⟨t', hReturned⟩
        cases (hUndefined.unique hReturned).2
    | error failure =>
        rcases hAborts failure hEval with ⟨t', hAborted⟩
        cases (hUndefined.unique hAborted).2

/- The minimum by minus one, divided by another quotient. -/
theorem llvm_computes_nested_quotient :
    let e : Expr :=
      .binary .div
        (.binary .div (.number 0x80000000)
          (.unary .minus (.number 1)))
        (.binary .div (.number 7) (.number 2))
    e.IsLegal ∧
      ∃ f s, e.llvm = .ok f ∧ f.start? = some s ∧
        ∃ t, Ends (State.step f) s t
          (.returned (-715827882)) := by
  intro e
  have hLegal : e.IsLegal := by
    simp [e, IsLegal, UnaryOp.IsKnown, BinaryOp.IsKnown]
  have hEval : e.eval = .ok (-715827882) := rfl
  rcases llvm_computes_eval hLegal with
    ⟨f, s, hLlvm, hStart, hReturns, _⟩
  exact ⟨hLegal, f, s, hLlvm, hStart, hReturns _ hEval⟩

end Expr

end ExprCompiler
