import ExprCompiler.Failure
import ExprCompiler.Text.FoldedName

/-
  What a user of the compiler can choose: the form of the
  output, and what becomes of literals that are too wide.

  Key definitions include:
    * `Target`
    * `OverflowPolicy`
    * `Settings`
-/

------------------------------------------------------------
-- Targets
------------------------------------------------------------

namespace ExprCompiler

/- The form in which an expression is put out. -/
inductive Target where
  | asm
  | llvm
  | eval
  | unknown
deriving DecidableEq, Repr

namespace Target

/- The target that a number stands for. -/
def ofCode : Int → Target
| 0 => .asm
| 1 => .llvm
| 2 => .eval
| _ => .unknown

/- The name of a target. -/
def name : Target → String
| .asm => "asm"
| .llvm => "llvm"
| .eval => "eval"
| .unknown => "unknown"

/- The target of a name, in upper or lower case. -/
def parse
    (name : Text) :
    Except Failure Target :=
  match name.foldedName with
  | "asm" => .ok .asm
  | "llvm" => .ok .llvm
  | "eval" => .ok .eval
  | _ => .error ⟨.unknownTarget name, []⟩

end Target

------------------------------------------------------------
-- Overflow Policies
------------------------------------------------------------

/- What becomes of a literal that needs over 32 bits. -/
inductive OverflowPolicy where
  | wrap
  | check
deriving DecidableEq, Repr

namespace OverflowPolicy

/- The policy that a number stands for. -/
def ofCode : Int → OverflowPolicy
| 1 => .check
| _ => .wrap

/- The name of a policy. -/
def name : OverflowPolicy → String
| .wrap => "wrap"
| .check => "check"

/- The policy of a name, in upper or lower case. -/
def parse
    (name : Text) :
    Except Failure OverflowPolicy :=
  match name.foldedName with
  | "wrap" => .ok .wrap
  | "check" => .ok .check
  | _ => .error ⟨.unknownPolicy name, []⟩

end OverflowPolicy

------------------------------------------------------------
-- Settings
------------------------------------------------------------

/- The choices for one compiler. -/
structure Settings where
  target : Target := .asm
  overflow : OverflowPolicy := .wrap
deriving DecidableEq, Repr

end ExprCompiler
