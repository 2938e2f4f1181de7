import ExprCompiler.Llvm.Basic
import ExprCompiler.Proofs.Transition
import Mathlib.Logic.Function.Basic

/-
  How an LLVM function is executed.

  Key definitions include:
    * `Llvm.State`
    * `Llvm.State.execute`
    * `Llvm.State.leave`
    * `Llvm.State.step`
    * `Llvm.Function.start?`

  Sums, differences and products wrap around. Whatever the
  language leaves undefined ends execution as undefined: a
  quotient that does not exist, the use of a result without
  a value or of the wrong type, a block that is missing, and
  an `unreachable` that is reached.
-/

------------------------------------------------------------
-- Arithmetic
------------------------------------------------------------

namespace ExprCompiler

namespace Llvm

/- The result of arithmetic, if it is defined. -/
def ArithOp.compute? : ArithOp → Int32 → Int32 → Option Int32
| .add, left, right => some (left + right)
| .sub, left, right => some (left - right)
| .mul, left, right => some (left * right)
| .sdiv, left, right =>
    if right = 0 ∨ left = Int32.minValue ∧ right = -1 then
      none
    else
      some (left / right)

------------------------------------------------------------
-- States
------------------------------------------------------------

/- What an instruction results in. -/
inductive Cell where
  | number (v : Int32)
  | flag (b : Bool)
deriving DecidableEq, Repr

/-
  The block that is executed and the one that control came
  from, what is left of the block, and the results so far.
-/
structure State where
  label : Label
  source : Option Label
  body : List Instr
  terminator : Terminator
  results : Nat → Option Cell

namespace State

/- How execution ends. -/
inductive Ending where
  | returned (v : Int32)
  | aborted
  | undefined
deriving DecidableEq, Repr

/- The number that a value stands for. -/
def number?
    (v : Value)
    (s : State) :
    Option Int32 :=
  match v with
  | .number v => some v
  | .result n =>
      match s.results n with
      | some (.number v) => some v
      | _ => none

/- The truth value that a value stands for. -/
def flag?
    (v : Value)
    (s : State) :
    Option Bool :=
  match v with
  | .number _ => none
  | .result n =>
      match s.results n with
      | some (.flag b) => some b
      | _ => none

/- Gives an instruction its result. -/
def assign
    (n : Nat)
    (cell : Cell)
    (s : State) :
    State :=
  { s with results := Function.update s.results n (some cell) }

------------------------------------------------------------
-- Instructions
------------------------------------------------------------

/- The number that comes with the block control came from. -/
def incoming?
    (first second : Incoming)
    (s : State) :
    Option Int32 :=
  match s.source with
  | none => none
  | some l =>
      if l.name = first.source.name then
        s.number? first.value
      else if l.name = second.source.name then
        s.number? second.value
      else
        none

/- Goes on with a result if it is defined. -/
def define
    (n : Nat)
    (cell : Option Cell)
    (s : State) :
    Transition State Ending :=
  match cell with
  | none => .halt .undefined
  | some cell => .next (s.assign n cell)

/- Executes an instruction that has been taken from `body`. -/
def execute
    (i : Instr)
    (s : State) :
    Transition State Ending :=
  match i with
  | .arith n op left right =>
      s.define n do
        let l ← s.number? left
        let r ← s.number? right
        return .number (← op.compute? l r)
  | .isEqual n left right =>
      s.define n do
        let l ← s.number? left
        let r ← s.number? right
        return .flag (l == r)
  | .phi n first second =>
      s.define n ((s.incoming? first second).map .number)
  | .callAbort => .halt .aborted

end State

------------------------------------------------------------
-- Blocks
------------------------------------------------------------

/- The block with a name. -/
def Function.block?
    (name : String)
    (f : Function) :
    Option Block :=
  f.blocks.find? fun b => b.label.name = name

/- Where the execution of a block starts. -/
def Block.start
    (source : Option Label)
    (results : Nat → Option Cell)
    (b : Block) :
    State :=
  { label := b.label
    source := source
    body := b.body
    terminator := b.terminator
    results := results }

namespace State

/- Passes control to the block with a label. -/
def enter
    (f : Function)
    (target : Label)
    (s : State) :
    Transition State Ending :=
  match f.block? target.name with
  | none => .halt .undefined
  | some b => .next (b.start (some s.label) s.results)

/- Executes the terminator of a block. -/
def leave
    (f : Function)
    (s : State) :
    Transition State Ending :=
  match s.terminator with
  | .ret v =>
      match s.number? v with
      | none => .halt .undefined
      | some v => .halt (.returned v)
  | .jump target => s.enter f target
  | .branch condition yes no =>
      match s.flag? condition with
      | none => .halt .undefined
      | some true => s.enter f yes
      | some false => s.enter f no
  | .unreachable => .halt .undefined

/- Executes the next instruction, or else the terminator. -/
def step
    (f : Function)
    (s : State) :
    Transition State Ending :=
  match s.body with
  | [] => s.leave f
  | i :: rest => { s with body := rest }.execute i

end State

/- Where control enters: at the first block. -/
def Function.start?
    (f : Function) :
    Option State :=
  f.blocks.head?.map (Block.start none fun _ => none)

------------------------------------------------------------
-- Values Below a Number
------------------------------------------------------------

/- A value that uses no result from a number on. -/
def Value.IsBelow
    (n : Nat) :
    Value → Prop
| .number _ => True
| .result k => k < n

theorem Value.IsBelow.mono
    {v : Value}
    {n n' : Nat}
    (hBelow : v.IsBelow n)
    (hLe : n ≤ n') :
    v.IsBelow n' := by
  cases v with
  | number v => trivial
  | result k => exact Nat.lt_of_lt_of_le hBelow hLe

namespace State

/- Two states have the same results below a number. -/
def AgreesBelow
    (n : Nat)
    (s s' : State) :
    Prop :=
  ∀ k < n, s'.results k = s.results k

variable {s s' t : State}
variable {n n' : Nat}

theorem AgreesBelow.trans
    (hFirst : s.AgreesBelow n s')
    (hSecond : s'.AgreesBelow n' t)
    (hLe : n ≤ n') :
    s.AgreesBelow n t := by
  intro k hLess
  rw [hSecond k (Nat.lt_of_lt_of_le hLess hLe),
    hFirst k hLess]

theorem agreesBelow_assign
    (cell : Cell)
    (hLe : n ≤ n') :
    s.AgreesBelow n (s.assign n' cell) := by
  intro k hLess
  have hOther : k ≠ n' := by
    omega
  exact Function.update_of_ne hOther _ _

/- A value keeps its number where results agree. -/
theorem AgreesBelow.number?_eq
    (hAgrees : s.AgreesBelow n s')
    {v : Value}
    (hBelow : v.IsBelow n) :
    s'.number? v = s.number? v := by
  cases v with
  | number v => rfl
  | result k =>
      have hCell := hAgrees k hBelow
      simp only [number?, hCell]

@[simp] theorem number?_assign_self
    (n : Nat)
    (v : Int32)
    (s : State) :
    (s.assign n (.number v)).number? (.result n) = some v := by
  simp [number?, assign]

------------------------------------------------------------
-- Short Blocks
------------------------------------------------------------

open Transition

variable {f : Function}
variable {left right : Value} {x y z : Int32}

theorem step_arith
    {op : ArithOp}
    {rest : List Instr}
    (hBody : s.body = .arith n op left right :: rest)
    (hLeft : s.number? left = some x)
    (hRight : s.number? right = some y)
    (hCompute : op.compute? x y = some z) :
    s.step f =
      .next ({ s with body := rest }.assign n
        (.number z)) := by
  have hLeft' :
      { s with body := rest }.number? left = some x := hLeft
  have hRight' :
      { s with body := rest }.number? right = some y := hRight
  simp [step, hBody, execute, hLeft', hRight', hCompute, define]

theorem step_isEqual
    {rest : List Instr}
    (hBody : s.body = .isEqual n left right :: rest)
    (hLeft : s.number? left = some x)
    (hRight : s.number? right = some y) :
    s.step f =
      .next ({ s with body := rest }.assign n
        (.flag (x == y))) := by
  have hLeft' :
      { s with body := rest }.number? left = some x := hLeft
  have hRight' :
      { s with body := rest }.number? right = some y := hRight
  simp [step, hBody, execute, hLeft', hRight', define]

theorem step_phi
    {first second : Incoming}
    {rest : List Instr}
    (hBody : s.body = .phi n first second :: rest)
    (hIncoming : s.incoming? first second = some z) :
    s.step f =
      .next ({ s with body := rest }.assign n
        (.number z)) := by
  have hIncoming' :
      { s with body := rest }.incoming? first second =
        some z := hIncoming
  simp [step, hBody, execute, hIncoming', define]

/- A block that compares and branches. -/
theorem reaches_of_branch
    {yes no : Label}
    {b : Block}
    (hBody : s.body = [.isEqual n left right])
    (hTerminator :
      s.terminator = .branch (.result n) yes no)
    (hLeft : s.number? left = some x)
    (hRight : s.number? right = some y)
    (hBlock :
      f.block? (if x = y then yes else no).name = some b) :
    Reaches (step f) s
      (b.start (some s.label)
        (s.assign n (.flag (x == y))).results) := by
  have hBranch :
      ({ s with body := [] }.assign n
          (.flag (x == y))).step f =
        .next (b.start (some s.label)
          (s.assign n (.flag (x == y))).results) := by
    by_cases hEqual : x = y
    · have hFlag : (x == y) = true :=
        beq_iff_eq.mpr hEqual
      rw [if_pos hEqual] at hBlock
      simp [step, leave, hTerminator, assign, flag?, hFlag,
        enter, hBlock]
    · have hFlag : (x == y) = false :=
        beq_eq_false_iff_ne.mpr hEqual
      rw [if_neg hEqual] at hBlock
      simp [step, leave, hTerminator, assign, flag?, hFlag,
        enter, hBlock]
  exact .head (step_isEqual hBody hLeft hRight)
    (.single hBranch)

/- A block that computes and jumps. -/
theorem reaches_of_jump
    {op : ArithOp}
    {target : Label}
    {b : Block}
    (hBody : s.body = [.arith n op left right])
    (hTerminator : s.terminator = .jump target)
    (hLeft : s.number? left = some x)
    (hRight : s.number? right = some y)
    (hCompute : op.compute? x y = some z)
    (hBlock : f.block? target.name = some b) :
    Reaches (step f) s
      (b.start (some s.label)
        (s.assign n (.number z)).results) := by
  have hJump :
      ({ s with body := [] }.assign n (.number z)).step f =
        .next (b.start (some s.label)
          (s.assign n (.number z)).results) := by
    simp [step, assign, leave, hTerminator, enter, hBlock]
  exact .head (step_arith hBody hLeft hRight hCompute)
    (.single hJump)

end State

end Llvm

end ExprCompiler
