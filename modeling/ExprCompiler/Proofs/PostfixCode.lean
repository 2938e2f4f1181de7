import ExprCompiler.Proofs.Execution
import Mathlib.Data.Set.Function

/-
  Programs and trees stand for each other.

  Key definitions include:
    * `Opcode.operands`
    * `Opcode.rise`
    * `Program.height`
    * `Program.IsPostfix`
    * `Program.trees?`
    * `Program.Stacks`

  Main declarations:
    * `Program.trees?_of_code`
    * `Program.isPostfix_of_code`
    * `Program.Stacks.exists_append`
    * `Expr.code_bijOn_isPostfix`

  A program in which no instruction lacks operands and which
  leaves one value is the program of exactly one tree. The
  tree comes back if the program is carried out on a stack
  of trees.
-/

------------------------------------------------------------
-- Heights of the Stack
------------------------------------------------------------

namespace ExprCompiler

namespace Opcode

/- Whether an opcode is one of the known ones. -/
def IsKnown : Opcode → Prop
| .unknown _ _ => False
| _ => True

/- The number of values that have to be on the stack. -/
def operands : Opcode → Nat
| .push => 0
| .pos => 1
| .neg => 1
| .add => 2
| .sub => 2
| .mul => 2
| .div => 2
| .unknown _ _ => 0

/- By how much the stack gets higher. -/
def rise : Opcode → Int
| .push => 1
| .pos => 0
| .neg => 0
| .add => -1
| .sub => -1
| .mul => -1
| .div => -1
| .unknown _ _ => 0

end Opcode

namespace UnaryOp

/- A unary operation keeps the height of the stack. -/
theorem effect_of_opcode?
    {op : UnaryOp}
    {opcode : Opcode}
    (hOpcode : op.opcode? = some opcode) :
    opcode.IsKnown ∧ opcode.operands = 1 ∧
      opcode.rise = 0 := by
  cases op with
  | unknown s h => cases hOpcode
  | _ =>
      cases hOpcode
      exact ⟨trivial, rfl, rfl⟩

end UnaryOp

namespace BinaryOp

/- A binary operation lowers the stack by one value. -/
theorem effect_of_opcode?
    {op : BinaryOp}
    {opcode : Opcode}
    (hOpcode : op.opcode? = some opcode) :
    opcode.IsKnown ∧ opcode.operands = 2 ∧
      opcode.rise = -1 := by
  cases op with
  | unknown s h => cases hOpcode
  | _ =>
      cases hOpcode
      exact ⟨trivial, rfl, rfl⟩

end BinaryOp

namespace Program

/- The height that a program gives to an empty stack. -/
def height : Program → Int
| [] => 0
| i :: p => i.opcode.rise + height p

theorem height_singleton
    (i : Instruction) :
    height [i] = i.opcode.rise :=
  Int.add_zero i.opcode.rise

theorem height_append
    (p q : Program) :
    height (p ++ q) = height p + height q := by
  induction p with
  | nil => simp [height]
  | cons i p ih => simp [height, ih, Int.add_assoc]

/-
  On a stack of the given height, every instruction of a
  program finds its operands.
-/
def SuppliedFrom
    (h : Int)
    (p : Program) :
    Prop :=
  ∀ before i after, p = before ++ i :: after →
    i.opcode.operands ≤ h + height before

theorem suppliedFrom_nil
    (h : Int) :
    SuppliedFrom h [] := by
  simp [SuppliedFrom]

theorem suppliedFrom_cons_iff
    {h : Int}
    {i : Instruction}
    {p : Program} :
    SuppliedFrom h (i :: p) ↔
      i.opcode.operands ≤ h ∧
        SuppliedFrom (h + i.opcode.rise) p := by
  constructor
  · intro hSupplied
    constructor
    · simpa [height] using hSupplied [] i p rfl
    · rintro before j after rfl
      have hLater := hSupplied (i :: before) j after rfl
      simpa [height, Int.add_assoc] using hLater
  · rintro ⟨hFirst, hRest⟩ before j after hSplit
    cases before with
    | nil =>
        cases hSplit
        simpa [height] using hFirst
    | cons i' before =>
        cases hSplit
        have hLater := hRest before j after rfl
        simpa [height, Int.add_assoc] using hLater

theorem suppliedFrom_singleton_iff
    {h : Int}
    {i : Instruction} :
    SuppliedFrom h [i] ↔ i.opcode.operands ≤ h := by
  simp [suppliedFrom_cons_iff, suppliedFrom_nil]

theorem suppliedFrom_append_iff
    {h : Int}
    {p q : Program} :
    SuppliedFrom h (p ++ q) ↔
      SuppliedFrom h p ∧ SuppliedFrom (h + height p) q := by
  induction p generalizing h with
  | nil => simp [suppliedFrom_nil, height]
  | cons i p ih =>
      rw [List.cons_append, suppliedFrom_cons_iff, ih,
        suppliedFrom_cons_iff, height, Int.add_assoc,
        and_assoc]

------------------------------------------------------------
-- Postfix Programs
------------------------------------------------------------

/-
  Known opcodes with values on pushes only, where every
  instruction finds its operands and one value is left.
-/
structure IsPostfix
    (p : Program) :
    Prop where
  known : ∀ i ∈ p, i.opcode.IsKnown
  plain : ∀ i ∈ p, i.opcode ≠ .push → i.value = 0
  supplied : SuppliedFrom 0 p
  height_eq_one : height p = 1

/- What holds of operations and pushes holds of programs. -/
theorem forall_mem_of_code
    {P : Instruction → Prop}
    (hNumber : ∀ value, P (.ofNumber value))
    (hUnary :
      ∀ op opcode, UnaryOp.opcode? op = some opcode →
        P (.ofOpcode opcode))
    (hBinary :
      ∀ op opcode, BinaryOp.opcode? op = some opcode →
        P (.ofOpcode opcode))
    {e : Expr}
    {p : Program}
    (hCode : e.code = .ok p) :
    ∀ i ∈ p, P i := by
  induction e generalizing p with
  | missing => exact absurd hCode (Expr.code_missing_ne_ok p)
  | number value =>
      rw [Expr.code_number] at hCode
      cases hCode
      simpa using hNumber value
  | unary op x ih =>
      rcases Expr.code_unary_eq_ok_iff.mp hCode with
        ⟨opcode, c, hOpcode, hOperand, rfl⟩
      rw [List.forall_mem_append, List.forall_mem_singleton]
      exact ⟨ih hOperand, hUnary op opcode hOpcode⟩
  | binary op l r ihLeft ihRight =>
      rcases Expr.code_binary_eq_ok_iff.mp hCode with
        ⟨opcode, cl, cr, hOpcode, hLeft, hRight, rfl⟩
      rw [List.forall_mem_append, List.forall_mem_append,
        List.forall_mem_singleton]
      exact ⟨⟨ihLeft hLeft, ihRight hRight⟩,
        hBinary op opcode hOpcode⟩

/- The program of a tree needs nothing and adds one value. -/
theorem suppliedFrom_of_code
    {e : Expr}
    {p : Program}
    (hCode : e.code = .ok p)
    {h : Int}
    (hHeight : 0 ≤ h) :
    SuppliedFrom h p ∧ height p = 1 := by
  induction e generalizing p h with
  | missing => exact absurd hCode (Expr.code_missing_ne_ok p)
  | number value =>
      rw [Expr.code_number] at hCode
      cases hCode
      exact ⟨suppliedFrom_singleton_iff.mpr hHeight, rfl⟩
  | unary op x ih =>
      rcases Expr.code_unary_eq_ok_iff.mp hCode with
        ⟨opcode, c, hOpcode, hOperand, rfl⟩
      rcases op.effect_of_opcode? hOpcode with
        ⟨_, hOperands, hRise⟩
      rcases ih hOperand hHeight with ⟨hSupplied, hOne⟩
      rw [suppliedFrom_append_iff, suppliedFrom_singleton_iff,
        height_append, height_singleton, hOne,
        Instruction.ofOpcode, hOperands, hRise]
      exact ⟨⟨hSupplied, by omega⟩, by omega⟩
  | binary op l r ihLeft ihRight =>
      rcases Expr.code_binary_eq_ok_iff.mp hCode with
        ⟨opcode, cl, cr, hOpcode, hLeft, hRight, rfl⟩
      rcases op.effect_of_opcode? hOpcode with
        ⟨_, hOperands, hRise⟩
      rcases ihLeft hLeft hHeight with
        ⟨hFirst, hOneLeft⟩
      rcases ihRight hRight (h := h + 1) (by omega) with
        ⟨hSecond, hOneRight⟩
      have hTwo : height (cl ++ cr) = 2 := by
        rw [height_append, hOneLeft, hOneRight]
        rfl
      rw [suppliedFrom_append_iff, suppliedFrom_append_iff,
        suppliedFrom_singleton_iff, hTwo, height_append,
        hTwo, height_singleton, hOneLeft,
        Instruction.ofOpcode, hOperands, hRise]
      exact ⟨⟨⟨hFirst, hSecond⟩, by omega⟩, by omega⟩

theorem isPostfix_of_code
    {e : Expr}
    {p : Program}
    (hCode : e.code = .ok p) :
    IsPostfix p := by
  rcases suppliedFrom_of_code hCode (Int.le_refl 0) with
    ⟨hSupplied, hOne⟩
  refine ⟨?_, ?_, hSupplied, hOne⟩
  · refine forall_mem_of_code (fun _ => trivial) ?_ ?_ hCode
    · intro op opcode hOpcode
      exact (op.effect_of_opcode? hOpcode).1
    · intro op opcode hOpcode
      exact (op.effect_of_opcode? hOpcode).1
  · refine forall_mem_of_code ?_ ?_ ?_ hCode
    · intro value hPush
      exact absurd rfl hPush
    · exact fun _ _ _ _ => rfl
    · exact fun _ _ _ _ => rfl

end Program

------------------------------------------------------------
-- Trees on the Stack
------------------------------------------------------------

namespace Instruction

/-
  Carries out an instruction on a stack of trees, with its
  top first, by building trees in place of values.
-/
def reduce?
    (i : Instruction)
    (es : List Expr) :
    Option (List Expr) :=
  match i.opcode, es with
  | .push, es => some (.number i.value :: es)
  | .pos, x :: es => some (.unary .plus x :: es)
  | .neg, x :: es => some (.unary .minus x :: es)
  | .add, r :: l :: es => some (.binary .add l r :: es)
  | .sub, r :: l :: es => some (.binary .sub l r :: es)
  | .mul, r :: l :: es => some (.binary .mul l r :: es)
  | .div, r :: l :: es => some (.binary .div l r :: es)
  | _, _ => none

/- An operation without a value is given by its opcode. -/
theorem eq_ofOpcode
    (i : Instruction)
    (hPlain : i.opcode ≠ .push → i.value = 0)
    (hOperands : i.opcode.operands ≠ 0) :
    i = ofOpcode i.opcode := by
  rcases i with ⟨opcode, value⟩
  have hValue : value = 0 := by
    apply hPlain
    rintro rfl
    exact hOperands rfl
  rw [hValue]
  rfl

theorem reduce?_of_unary
    {op : UnaryOp}
    {opcode : Opcode}
    (hOpcode : op.opcode? = some opcode)
    (x : Expr)
    (es : List Expr) :
    (ofOpcode opcode).reduce? (x :: es) =
      some (.unary op x :: es) := by
  cases op with
  | unknown s h => cases hOpcode
  | _ =>
      cases hOpcode
      rfl

theorem reduce?_of_binary
    {op : BinaryOp}
    {opcode : Opcode}
    (hOpcode : op.opcode? = some opcode)
    (l r : Expr)
    (es : List Expr) :
    (ofOpcode opcode).reduce? (r :: l :: es) =
      some (.binary op l r :: es) := by
  cases op with
  | unknown s h => cases hOpcode
  | _ =>
      cases hOpcode
      rfl

end Instruction

namespace Program

/- The trees that a program leaves on a stack of trees. -/
def trees?
    (es : List Expr)
    (p : Program) :
    Option (List Expr) :=
  p.foldlM (fun es i => i.reduce? es) es

/- The program of a tree puts the tree on the stack. -/
theorem trees?_of_code
    {e : Expr}
    {p : Program}
    (hCode : e.code = .ok p)
    (es : List Expr) :
    trees? es p = some (e :: es) := by
  induction e generalizing p es with
  | missing => exact absurd hCode (Expr.code_missing_ne_ok p)
  | number value =>
      rw [Expr.code_number] at hCode
      cases hCode
      rfl
  | unary op x ih =>
      rcases Expr.code_unary_eq_ok_iff.mp hCode with
        ⟨opcode, c, hOpcode, hOperand, rfl⟩
      have hInner := ih hOperand es
      simp only [trees?] at hInner ⊢
      simp [hInner, Instruction.reduce?_of_unary hOpcode]
  | binary op l r ihLeft ihRight =>
      rcases Expr.code_binary_eq_ok_iff.mp hCode with
        ⟨opcode, cl, cr, hOpcode, hLeft, hRight, rfl⟩
      have hFirst := ihLeft hLeft es
      have hSecond := ihRight hRight (l :: es)
      simp only [trees?] at hFirst hSecond ⊢
      simp [hFirst, hSecond,
        Instruction.reduce?_of_binary hOpcode]

------------------------------------------------------------
-- Programs One After the Other
------------------------------------------------------------

/-
  A program is made of the programs of trees, of which the
  last comes first in the list.
-/
inductive Stacks : Program → List Expr → Prop
  | nil :
      Stacks [] []
  | cons
      {p q : Program}
      {e : Expr}
      {es : List Expr}
      (hRest : Stacks p es)
      (hCode : e.code = .ok q) :
      Stacks (p ++ q) (e :: es)

theorem Stacks.exists_of_cons
    {p : Program}
    {e : Expr}
    {es : List Expr}
    (hStacks : Stacks p (e :: es)) :
    ∃ p' q, p = p' ++ q ∧ Stacks p' es ∧
      e.code = .ok q := by
  cases hStacks with
  | cons hRest hCode => exact ⟨_, _, rfl, hRest, hCode⟩

/- A unary operation belongs to the last of the programs. -/
theorem Stacks.unary
    {p : Program}
    {x : Expr}
    {es : List Expr}
    (hStacks : Stacks p (x :: es))
    {op : UnaryOp}
    {opcode : Opcode}
    (hOpcode : op.opcode? = some opcode) :
    Stacks (p ++ [.ofOpcode opcode])
      (.unary op x :: es) := by
  rcases hStacks.exists_of_cons with
    ⟨p, q, rfl, hRest, hOperand⟩
  have hCode :
      (Expr.unary op x).code =
        .ok (q ++ [.ofOpcode opcode]) :=
    Expr.code_unary_eq_ok_iff.mpr
      ⟨opcode, q, hOpcode, hOperand, rfl⟩
  rw [List.append_assoc]
  exact hRest.cons hCode

/- A binary operation belongs to the last two programs. -/
theorem Stacks.binary
    {p : Program}
    {l r : Expr}
    {es : List Expr}
    (hStacks : Stacks p (r :: l :: es))
    {op : BinaryOp}
    {opcode : Opcode}
    (hOpcode : op.opcode? = some opcode) :
    Stacks (p ++ [.ofOpcode opcode])
      (.binary op l r :: es) := by
  rcases hStacks.exists_of_cons with
    ⟨_, cr, rfl, hInner, hRight⟩
  rcases hInner.exists_of_cons with
    ⟨p, cl, rfl, hRest, hLeft⟩
  have hCode :
      (Expr.binary op l r).code =
        .ok (cl ++ cr ++ [.ofOpcode opcode]) :=
    Expr.code_binary_eq_ok_iff.mpr
      ⟨opcode, cl, cr, hOpcode, hLeft, hRight, rfl⟩
  rw [List.append_assoc p, List.append_assoc p]
  exact hRest.cons hCode

/-
  An instruction that finds its operands turns the programs
  in front of it into one, or begins a program of its own.
-/
theorem Stacks.exists_concat
    {p : Program}
    {es : List Expr}
    (hStacks : Stacks p es)
    {i : Instruction}
    (hKnown : i.opcode.IsKnown)
    (hPlain : i.opcode ≠ .push → i.value = 0)
    (hOperands : (i.opcode.operands : Int) ≤ es.length) :
    ∃ es', Stacks (p ++ [i]) es' ∧
      (es'.length : Int) = es.length + i.opcode.rise := by
  rcases i.opcode.role_cases with
    hPush | ⟨op, hOp⟩ | ⟨op, hOp⟩ | ⟨code, h, hUnknown⟩
  · rcases i with ⟨_, value⟩
    cases hPush
    refine ⟨.number value :: es,
      hStacks.cons (Expr.code_number value), ?_⟩
    simp [Opcode.rise]
  · rcases op.effect_of_opcode? hOp with
      ⟨_, hOne, hRise⟩
    rw [i.eq_ofOpcode hPlain (by omega)]
    cases es with
    | nil => simp [hOne] at hOperands
    | cons x es =>
        refine ⟨.unary op x :: es, hStacks.unary hOp, ?_⟩
        simp [Instruction.ofOpcode, hRise]
  · rcases op.effect_of_opcode? hOp with
      ⟨_, hTwo, hRise⟩
    rw [i.eq_ofOpcode hPlain (by omega)]
    rcases es with _ | ⟨r, _ | ⟨l, es⟩⟩
    · simp [hTwo] at hOperands
    · simp [hTwo] at hOperands
    · refine ⟨.binary op l r :: es, hStacks.binary hOp, ?_⟩
      simp only [Instruction.ofOpcode, List.length_cons,
        hRise]
      omega
  · rw [hUnknown] at hKnown
    cases hKnown

/-
  Behind the programs of trees, a program that finds its
  operands on their values makes new trees of them.
-/
theorem Stacks.exists_append
    {p q : Program}
    {es : List Expr}
    (hStacks : Stacks p es)
    (hKnown : ∀ i ∈ q, i.opcode.IsKnown)
    (hPlain : ∀ i ∈ q, i.opcode ≠ .push → i.value = 0)
    (hSupplied : SuppliedFrom es.length q) :
    ∃ es', Stacks (p ++ q) es' ∧
      (es'.length : Int) = es.length + height q := by
  induction q generalizing p es with
  | nil =>
      rw [List.append_nil]
      exact ⟨es, hStacks, by simp [height]⟩
  | cons i q ih =>
      rw [List.forall_mem_cons] at hKnown hPlain
      rcases suppliedFrom_cons_iff.mp hSupplied with
        ⟨hOperands, hRest⟩
      rcases hStacks.exists_concat hKnown.1 hPlain.1
          hOperands with
        ⟨es₁, hFirst, hLength⟩
      rw [← hLength] at hRest
      rcases ih hFirst hKnown.2 hPlain.2 hRest with
        ⟨es', hAll, hHeight⟩
      rw [List.append_assoc, List.singleton_append] at hAll
      refine ⟨es', hAll, ?_⟩
      rw [hHeight, hLength, height, Int.add_assoc]

/- A postfix program is the program of a tree. -/
theorem IsPostfix.exists_code
    {p : Program}
    (hPostfix : IsPostfix p) :
    ∃ e : Expr, e.code = .ok p := by
  rcases Stacks.nil.exists_append hPostfix.known
      hPostfix.plain hPostfix.supplied with
    ⟨es, hStacks, hLength⟩
  rw [hPostfix.height_eq_one] at hLength
  have hOne : es.length = 1 := by
    simp only [List.length_nil] at hLength
    omega
  rcases List.length_eq_one_iff.mp hOne with ⟨e, rfl⟩
  rcases hStacks.exists_of_cons with
    ⟨_, q, rfl, hNil, hCode⟩
  cases hNil
  exact ⟨e, hCode⟩

end Program

------------------------------------------------------------
-- Programs of Legal Trees
------------------------------------------------------------

namespace Expr

/- No two trees have the same program. -/
theorem eq_of_code_eq
    {e e' : Expr}
    {p : Program}
    (hCode : e.code = .ok p)
    (hCode' : e'.code = .ok p) :
    e = e' := by
  have hTrees := Program.trees?_of_code hCode []
  rw [Program.trees?_of_code hCode' []] at hTrees
  cases hTrees
  rfl

/-
  Legal trees and postfix programs correspond one to one:
  each legal tree has a postfix program, no two of them have
  the same, and every postfix program belongs to one.
-/
theorem code_bijOn_isPostfix :
    Set.BijOn code {e | e.IsLegal}
      (Set.image .ok {p | Program.IsPostfix p}) := by
  refine ⟨?_, ?_, ?_⟩
  · intro e hLegal
    rcases exists_code_of_isLegal hLegal with ⟨p, hCode⟩
    exact ⟨p, Program.isPostfix_of_code hCode, hCode.symm⟩
  · intro e hLegal e' _ hSame
    rcases exists_code_of_isLegal hLegal with ⟨p, hCode⟩
    exact eq_of_code_eq hCode (hSame ▸ hCode)
  · rintro _ ⟨p, hPostfix, rfl⟩
    rcases hPostfix.exists_code with ⟨e, hCode⟩
    exact ⟨e, isLegal_of_code_eq_ok hCode, hCode⟩

end Expr

end ExprCompiler
