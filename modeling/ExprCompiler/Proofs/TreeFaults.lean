import ExprCompiler.Proofs.Code
import ExprCompiler.Proofs.Evaluation
import ExprCompiler.Proofs.LlvmDrafts

/-
  Where the walks over a tree fail.

  Key definitions include:
    * `Expr.preorder`
    * `Expr.postorder`
    * `Expr.fault?`
    * `Expr.FirstFault`

  Main declarations:
    * `Expr.failure_emit`
    * `Expr.failureOf?_load`
    * `Expr.exists_of_eval_eq_error`
    * `Expr.eval_of_firstFault`
    * `Expr.walks_agree_on_faults`

  The generator looks at a node before its operands, and the
  others look at it behind them. So each of them reports the
  first node at fault in its own order, except that a
  division by zero may end an evaluation earlier.
-/

------------------------------------------------------------
-- Failures of Computations
------------------------------------------------------------

namespace ExprCompiler

/- The failure of a computation that has failed. -/
def failureOf?
    {α : Type} :
    Except Failure α → Option Failure
| .ok _ => none
| .error f => some f

theorem failureOf?_eq_none_iff
    {α : Type}
    {result : Except Failure α} :
    failureOf? result = none ↔ ∃ a, result = .ok a := by
  cases result <;> simp [failureOf?]

theorem failureOf?_eq_some_iff
    {α : Type}
    {result : Except Failure α}
    {f : Failure} :
    failureOf? result = some f ↔ result = .error f := by
  cases result <;> simp [failureOf?]

theorem failureOf?_bind
    {α β : Type}
    {first : Except Failure α}
    {next : α → Except Failure β}
    {failure : Option Failure}
    (hNext : ∀ a, failureOf? (next a) = failure) :
    failureOf? (first >>= next) =
      (failureOf? first).or failure := by
  cases first with
  | error f => rfl
  | ok a => exact hNext a

------------------------------------------------------------
-- Nodes in Order
------------------------------------------------------------

namespace Expr

/- The nodes of a tree, each before its operands. -/
def preorder : Expr → List Expr
| .missing => [.missing]
| .number value => [.number value]
| .unary op x => .unary op x :: x.preorder
| .binary op l r =>
    .binary op l r :: (l.preorder ++ r.preorder)

/- The nodes of a tree, each behind its operands. -/
def postorder : Expr → List Expr
| .missing => [.missing]
| .number value => [.number value]
| .unary op x => x.postorder ++ [.unary op x]
| .binary op l r =>
    l.postorder ++ (r.postorder ++ [.binary op l r])

/- What is wrong with a node, apart from its operands. -/
def fault? : Expr → Option Context
| .missing => some .missingNode
| .number _ => none
| .unary op _ =>
    if op.IsKnown then none else some (.unary op)
| .binary op _ _ =>
    if op.IsKnown then none else some (.binary op)

/- The first fault among nodes, with the nodes before it. -/
def FirstFault
    (nodes before : List Expr)
    (node : Expr)
    (context : Context) :
    Prop :=
  (∃ after, nodes = before ++ node :: after) ∧
    (∀ n ∈ before, n.fault? = none) ∧
    node.fault? = some context

theorem findSome?_eq_some_iff_firstFault
    {nodes : List Expr}
    {context : Context} :
    nodes.findSome? fault? = some context ↔
      ∃ before node,
        FirstFault nodes before node context := by
  rw [List.findSome?_eq_some_iff]
  constructor
  · rintro ⟨before, node, after, hNodes, hFault, hBefore⟩
    exact ⟨before, node, ⟨after, hNodes⟩, hBefore, hFault⟩
  · rintro ⟨before, node, ⟨after, hNodes⟩, hBefore, hFault⟩
    exact ⟨before, node, after, hNodes, hFault, hBefore⟩

theorem map_findSome?_eq_some_iff
    {nodes : List Expr}
    {f : Failure} :
    (nodes.findSome? fault?).map .unknownOp = some f ↔
      ∃ before node context,
        FirstFault nodes before node context ∧
          f = .unknownOp context := by
  rw [Option.map_eq_some_iff]
  constructor
  · rintro ⟨context, hFind, rfl⟩
    rcases findSome?_eq_some_iff_firstFault.mp hFind with
      ⟨before, node, hFirst⟩
    exact ⟨before, node, context, hFirst, rfl⟩
  · rintro ⟨before, node, context, hFirst, rfl⟩
    exact ⟨context,
      findSome?_eq_some_iff_firstFault.mpr
        ⟨before, node, hFirst⟩,
      rfl⟩

theorem fault?_unary_eq_none_iff
    {op : UnaryOp}
    {x : Expr} :
    (unary op x).fault? = none ↔ op.IsKnown := by
  simp [fault?]

theorem fault?_binary_eq_none_iff
    {op : BinaryOp}
    {l r : Expr} :
    (binary op l r).fault? = none ↔ op.IsKnown := by
  simp [fault?]

/- A tree is legal if none of its nodes is at fault. -/
theorem findSome?_postorder_eq_none_iff
    (e : Expr) :
    e.postorder.findSome? fault? = none ↔ e.IsLegal := by
  rw [List.findSome?_eq_none_iff]
  induction e with
  | missing => simp [postorder, fault?, IsLegal]
  | number value => simp [postorder, fault?, IsLegal]
  | unary op x ih =>
      rw [postorder, List.forall_mem_append, ih,
        List.forall_mem_singleton, fault?_unary_eq_none_iff,
        IsLegal, and_comm]
  | binary op l r ihLeft ihRight =>
      rw [postorder, List.forall_mem_append,
        List.forall_mem_append, ihLeft, ihRight,
        List.forall_mem_singleton,
        fault?_binary_eq_none_iff, IsLegal, ← and_assoc,
        and_comm]

end Expr

------------------------------------------------------------
-- Generating
------------------------------------------------------------

namespace Emission

theorem failure_andThen
    {e : Emission}
    {next : List Instruction → Emission}
    {failure : Option Failure}
    (hNext : ∀ output, (next output).failure = failure) :
    (e.andThen next).failure = e.failure.or failure := by
  unfold andThen
  cases hFailure : e.failure with
  | none => simp [hNext]
  | some f => simp [hFailure]

theorem failure_apply
    (e : Emission)
    (opcode : Opcode) :
    (e.apply opcode).failure = e.failure := by
  have hLast :
      ∀ output : List Instruction,
        (Emission.mk (.ofOpcode opcode :: output)
          none).failure = none :=
    fun _ => rfl
  exact (failure_andThen hLast).trans Option.or_none

end Emission

namespace Expr

/- The generator stops at the first fault in preorder. -/
theorem failure_emit
    (e : Expr)
    (output : List Instruction) :
    (e.emit output).failure =
      (e.preorder.findSome? fault?).map .unknownOp := by
  induction e generalizing output with
  | missing => rfl
  | number value => rfl
  | unary op x ih =>
      cases op with
      | unknown s h => rfl
      | _ =>
          exact (Emission.failure_apply _ _).trans
            (ih output)
  | binary op l r ihLeft ihRight =>
      have hOperands :
          ((l.emit output).andThen r.emit).failure =
            ((l.preorder ++ r.preorder).findSome?
              fault?).map .unknownOp := by
        rw [Emission.failure_andThen ihRight, ihLeft,
          List.findSome?_append, Option.map_or]
      cases op with
      | unknown s h => rfl
      | _ =>
          exact (Emission.failure_apply _ _).trans hOperands

theorem failureOf?_code
    (e : Expr) :
    failureOf? e.code =
      (e.preorder.findSome? fault?).map .unknownOp := by
  rw [← failure_emit e [], code, Emission.outcome]
  cases (e.emit []).failure <;> rfl

end Expr

------------------------------------------------------------
-- Loading
------------------------------------------------------------

namespace Expr

/- Loading stops at the first fault in postorder. -/
theorem failureOf?_load
    (e : Expr)
    (d : Llvm.Draft) :
    failureOf? (e.load d) =
      (e.postorder.findSome? fault?).map .unknownOp := by
  induction e generalizing d with
  | missing => rfl
  | number value => rfl
  | unary op x ih =>
      have hOp :
          ∀ out : Llvm.Value × Llvm.Draft,
            failureOf? (op.load out.1 out.2) =
              (unary op x).fault?.map .unknownOp := by
        intro out
        cases op <;> rfl
      simp only [load, failureOf?_bind hOp, ih, postorder,
        List.findSome?_append, List.findSome?_singleton,
        Option.map_or]
  | binary op l r ihLeft ihRight =>
      have hOp :
          ∀ left (out : Llvm.Value × Llvm.Draft),
            failureOf? (op.load left out.1 out.2) =
              (binary op l r).fault?.map .unknownOp := by
        intro left out
        cases op <;> rfl
      have hRight :
          ∀ out : Llvm.Value × Llvm.Draft,
            failureOf? (r.load out.2 >>= fun next =>
                op.load out.1 next.1 next.2) =
              ((r.postorder ++ [binary op l r]).findSome?
                fault?).map .unknownOp := by
        intro out
        rw [failureOf?_bind (hOp out.1), ihRight,
          List.findSome?_append, List.findSome?_singleton,
          Option.map_or]
      simp only [load, failureOf?_bind hRight, ihLeft,
        postorder, List.findSome?_append, Option.map_or]

theorem failureOf?_llvm
    (e : Expr) :
    failureOf? e.llvm =
      (e.postorder.findSome? fault?).map .unknownOp := by
  rw [← failureOf?_load e {}, llvm]
  cases e.load {} <;> rfl

------------------------------------------------------------
-- Evaluating
------------------------------------------------------------

/- Where a tree has a value, so have all its nodes. -/
theorem exists_eval_of_mem_postorder
    {e n : Expr}
    {v : Int32}
    (hEval : e.eval = .ok v)
    (hMem : n ∈ e.postorder) :
    ∃ w, n.eval = .ok w := by
  induction e generalizing v with
  | missing => cases hEval
  | number value =>
      cases List.mem_singleton.mp hMem
      exact ⟨v, hEval⟩
  | unary op x ih =>
      rcases eval_unary_eq_ok_iff.mp hEval with
        ⟨w, hOperand, _⟩
      rcases List.mem_append.mp hMem with hInner | hSelf
      · exact ih hOperand hInner
      · cases List.mem_singleton.mp hSelf
        exact ⟨v, hEval⟩
  | binary op l r ihLeft ihRight =>
      rcases eval_binary_eq_ok_iff.mp hEval with
        ⟨left, hLeft, right, hRight, _⟩
      rcases List.mem_append.mp hMem with hInner | hRest
      · exact ihLeft hLeft hInner
      · rcases List.mem_append.mp hRest with hInner | hSelf
        · exact ihRight hRight hInner
        · cases List.mem_singleton.mp hSelf
          exact ⟨v, hEval⟩

/- A node with a value is not at fault. -/
theorem fault?_eq_none_of_eval
    {e : Expr}
    {v : Int32}
    (hEval : e.eval = .ok v) :
    e.fault? = none := by
  cases e with
  | missing => cases hEval
  | number value => rfl
  | unary op x =>
      rcases eval_unary_eq_ok_iff.mp hEval with
        ⟨w, _, hApply⟩
      cases op with
      | unknown s h => cases hApply
      | _ => rfl
  | binary op l r =>
      rcases eval_binary_eq_ok_iff.mp hEval with
        ⟨left, _, right, _, hApply⟩
      cases op with
      | unknown s h => cases hApply
      | _ => rfl

/- How a node can fail that has operands with values. -/
inductive FailsAlone : Expr → Failure → Prop
  | fault
      {n : Expr}
      {context : Context}
      (hFault : n.fault? = some context) :
      FailsAlone n (.unknownOp context)
  | division
      {l r : Expr}
      {left : Int32}
      (hLeft : l.eval = .ok left)
      (hRight : r.eval = .ok 0) :
      FailsAlone (.binary .div l r)
        ⟨.arithmetic ⟨.div, left, 0⟩, []⟩

theorem failsAlone_unary
    {op : UnaryOp}
    {x : Expr}
    {v : Int32}
    {f : Failure}
    (hApply : op.apply v = .error f) :
    FailsAlone (.unary op x) f := by
  cases op with
  | unknown s h =>
      cases hApply
      exact .fault rfl
  | _ => cases hApply

theorem failsAlone_binary
    {op : BinaryOp}
    {l r : Expr}
    {left right : Int32}
    {f : Failure}
    (hLeft : l.eval = .ok left)
    (hRight : r.eval = .ok right)
    (hApply : op.apply left right = .error f) :
    FailsAlone (.binary op l r) f := by
  by_cases hKnown : op.IsKnown
  · rcases op.apply_error_of_isKnown hKnown hApply with
      ⟨rfl, rfl, rfl⟩
    exact .division hLeft hRight
  · cases op with
    | unknown s h =>
        cases hApply
        exact .fault rfl
    | _ => exact absurd trivial hKnown

/- Evaluation stops at the first node without a value. -/
theorem exists_of_eval_eq_error
    {e : Expr}
    {f : Failure}
    (hEval : e.eval = .error f) :
    ∃ before n after,
      e.postorder = before ++ n :: after ∧
        (∀ m ∈ before, ∃ v, m.eval = .ok v) ∧
        FailsAlone n f := by
  induction e with
  | missing =>
      cases hEval
      exact ⟨[], .missing, [], rfl, by simp, .fault rfl⟩
  | number value => cases hEval
  | unary op x ih =>
      rcases eval_unary_eq_error_iff.mp hEval with
        hInner | ⟨w, hValue, hApply⟩
      · rcases ih hInner with
          ⟨before, n, after, hOrder, hBefore, hFails⟩
        exact ⟨before, n, after ++ [.unary op x],
          by simp [postorder, hOrder], hBefore, hFails⟩
      · exact ⟨x.postorder, .unary op x, [], rfl,
          fun _ => exists_eval_of_mem_postorder hValue,
          failsAlone_unary hApply⟩
  | binary op l r ihLeft ihRight =>
      rcases eval_binary_eq_error_iff.mp hEval with
        hInner | ⟨left, hLeft, hRest⟩
      · rcases ihLeft hInner with
          ⟨before, n, after, hOrder, hBefore, hFails⟩
        exact ⟨before, n,
          after ++ (r.postorder ++ [.binary op l r]),
          by simp [postorder, hOrder], hBefore, hFails⟩
      have hBeforeRight :
          ∀ m ∈ l.postorder, ∃ v, m.eval = .ok v :=
        fun _ => exists_eval_of_mem_postorder hLeft
      rcases hRest with hInner | ⟨right, hRight, hApply⟩
      · rcases ihRight hInner with
          ⟨before, n, after, hOrder, hBefore, hFails⟩
        exact ⟨l.postorder ++ before, n,
          after ++ [.binary op l r],
          by simp [postorder, hOrder],
          List.forall_mem_append.mpr
            ⟨hBeforeRight, hBefore⟩,
          hFails⟩
      · exact ⟨l.postorder ++ r.postorder,
          .binary op l r, [], by simp [postorder],
          List.forall_mem_append.mpr
            ⟨hBeforeRight,
              fun _ => exists_eval_of_mem_postorder hRight⟩,
          failsAlone_binary hLeft hRight hApply⟩

/- Nodes without a fault come before the first fault. -/
theorem FirstFault.prefix_of_clean
    {nodes before clean : List Expr}
    {node : Expr}
    {context : Context}
    (hFirst : FirstFault nodes before node context)
    (hPrefix : clean <+: nodes)
    (hClean : ∀ m ∈ clean, m.fault? = none) :
    clean <+: before := by
  rcases hFirst with ⟨⟨after, rfl⟩, _, hFault⟩
  rcases List.prefix_or_prefix_of_prefix hPrefix
      (List.prefix_append before (node :: after)) with
    hShort | ⟨more, rfl⟩
  · exact hShort
  -- A longer part without faults would hold the fault.
  · cases more with
    | nil => simp
    | cons m rest =>
        rw [List.prefix_append_right_inj,
          List.cons_prefix_cons] at hPrefix
        rcases hPrefix with ⟨rfl, _⟩
        have hNone := hClean m (by simp)
        rw [hFault] at hNone
        cases hNone

/-
  Evaluation of a tree with a fault reports its first fault
  in postorder, or a division by zero that comes earlier.
-/
theorem eval_of_firstFault
    {e node : Expr}
    {before : List Expr}
    {context : Context}
    (hFirst :
      FirstFault e.postorder before node context) :
    e.eval = .error (.unknownOp context) ∨
      ∃ l r left,
        .binary .div l r ∈ before ∧
          l.eval = .ok left ∧ r.eval = .ok 0 ∧
          e.eval =
            .error ⟨.arithmetic ⟨.div, left, 0⟩, []⟩ := by
  cases hEval : e.eval with
  | ok v =>
      rcases hFirst with ⟨⟨after, hOrder⟩, _, hFault⟩
      have hMem : node ∈ e.postorder := by simp [hOrder]
      rcases exists_eval_of_mem_postorder hEval hMem with
        ⟨w, hNode⟩
      rw [fault?_eq_none_of_eval hNode] at hFault
      cases hFault
  | error f =>
      rcases exists_of_eval_eq_error hEval with
        ⟨earlier, n, later, hSplit, hEarlier, hFails⟩
      have hClean :
          ∀ m ∈ earlier, m.fault? = none := by
        intro m hMem
        rcases hEarlier m hMem with ⟨v, hValue⟩
        exact fault?_eq_none_of_eval hValue
      cases hFails with
      | fault hFault =>
          have hHere :=
            findSome?_eq_some_iff_firstFault.mpr
              ⟨earlier, n, ⟨later, hSplit⟩, hClean, hFault⟩
          have hThere :=
            findSome?_eq_some_iff_firstFault.mpr
              ⟨before, node, hFirst⟩
          cases hHere.symm.trans hThere
          exact .inl rfl
      | @division l r left hLeft hRight =>
          have hPrefix :
              earlier ++ [.binary .div l r] <+: before := by
            apply hFirst.prefix_of_clean
            · exact ⟨later, by simp [hSplit]⟩
            · exact List.forall_mem_append.mpr
                ⟨hClean, by simp [fault?, BinaryOp.IsKnown]⟩
          exact .inr ⟨l, r, left,
            hPrefix.subset (by simp), hLeft, hRight, rfl⟩

------------------------------------------------------------
-- The Walks Together
------------------------------------------------------------

theorem exists_firstFault_of_not_isLegal
    {e : Expr}
    (hLegal : ¬ e.IsLegal) :
    ∃ before node context,
      FirstFault e.postorder before node context := by
  rw [← findSome?_postorder_eq_none_iff,
    ← ne_eq, Option.ne_none_iff_exists'] at hLegal
  rcases hLegal with ⟨context, hFind⟩
  rcases findSome?_eq_some_iff_firstFault.mp hFind with
    ⟨before, node, hFirst⟩
  exact ⟨before, node, context, hFirst⟩

/-
  Code and LLVM are generated for the legal trees and for no
  others. For any other tree the generator reports the first
  fault in preorder, and the LLVM builder the first one in
  postorder. Evaluation reports the latter as well, unless a
  division by zero comes earlier. A legal tree is never at
  fault.
-/
theorem walks_agree_on_faults
    (e : Expr) :
    ((∃ p, e.code = .ok p) ↔ e.IsLegal) ∧
      ((∃ g, e.llvm = .ok g) ↔ e.IsLegal) ∧
      (∀ f, e.code = .error f ↔
        ∃ before node context,
          FirstFault e.preorder before node context ∧
            f = .unknownOp context) ∧
      (∀ f, e.llvm = .error f ↔
        ∃ before node context,
          FirstFault e.postorder before node context ∧
            f = .unknownOp context) ∧
      (¬ e.IsLegal →
        ∃ before node context,
          FirstFault e.postorder before node context ∧
            (e.eval = .error (.unknownOp context) ∨
              ∃ l r left,
                .binary .div l r ∈ before ∧
                  l.eval = .ok left ∧ r.eval = .ok 0 ∧
                  e.eval = .error
                    ⟨.arithmetic ⟨.div, left, 0⟩, []⟩)) ∧
      (e.IsLegal →
        ∀ f, e.eval = .error f → f.cause ≠ .unknownOp) := by
  refine ⟨⟨?_, exists_code_of_isLegal⟩, ?_, ?_, ?_, ?_, ?_⟩
  · rintro ⟨p, hCode⟩
    exact isLegal_of_code_eq_ok hCode
  · rw [← findSome?_postorder_eq_none_iff,
      ← Option.map_eq_none_iff, ← failureOf?_llvm]
    exact failureOf?_eq_none_iff.symm
  · intro f
    rw [← failureOf?_eq_some_iff, failureOf?_code,
      map_findSome?_eq_some_iff]
  · intro f
    rw [← failureOf?_eq_some_iff, failureOf?_llvm,
      map_findSome?_eq_some_iff]
  · intro hLegal
    rcases exists_firstFault_of_not_isLegal hLegal with
      ⟨before, node, context, hFirst⟩
    exact ⟨before, node, context, hFirst,
      eval_of_firstFault hFirst⟩
  · intro hLegal f hEval
    rcases eval_error_of_isLegal hLegal hEval with
      ⟨left, rfl⟩
    simp

/- Each walk may report something else about one tree. -/
theorem walks_report_different_faults :
    let modulo : BinaryOp := .unknown "%" (by decide)
    let quotient : Expr :=
      .binary .div (.number 1) (.number 0)
    let e : Expr := .binary modulo quotient .missing
    ¬ e.IsLegal ∧
      e.code = .error (.unknownOp (.binary modulo)) ∧
      e.llvm = .error (.unknownOp .missingNode) ∧
      ∃ before node context,
        FirstFault e.postorder before node context ∧
          ∃ l r left,
            .binary .div l r ∈ before ∧
              l.eval = .ok left ∧ r.eval = .ok 0 ∧
              e.eval = .error
                ⟨.arithmetic ⟨.div, left, 0⟩, []⟩ := by
  intro modulo quotient e
  have hLegal : ¬ e.IsLegal := fun h => h.1
  rcases walks_agree_on_faults e with
    ⟨_, _, hCode, hLlvm, hEval, _⟩
  have hMissing :
      FirstFault e.postorder quotient.postorder .missing
        .missingNode :=
    ⟨⟨[e], rfl⟩, by decide, rfl⟩
  refine ⟨hLegal, ?_, ?_, ?_⟩
  · exact (hCode _).mpr
      ⟨[], e, _, ⟨⟨_, rfl⟩, by simp, rfl⟩, rfl⟩
  · exact (hLlvm _).mpr ⟨_, _, _, hMissing, rfl⟩
  · rcases hEval hLegal with
      ⟨before, node, context, hFirst, hSame | hDivision⟩
    · cases hSame
    · exact ⟨before, node, context, hFirst, hDivision⟩

end Expr

end ExprCompiler
