import ExprCompiler.Llvm.Basic

/-
  Names bound to values.

  Key definitions include:
    * `Llvm.Bindings`
    * `Llvm.Bindings.insert`
    * `Llvm.Bindings.find?`
-/

------------------------------------------------------------
-- Bindings
------------------------------------------------------------

namespace ExprCompiler

namespace Llvm

/- Bindings, newest first. -/
structure Bindings where
  entries : List (String × Value) := []
deriving DecidableEq, Repr

namespace Bindings

/- Binds a name, in place of what it was bound to. -/
def insert
    (name : String)
    (v : Value)
    (b : Bindings) :
    Bindings :=
  ⟨(name, v) :: b.entries⟩

/- The value that a name is bound to. -/
def find?
    (name : String)
    (b : Bindings) :
    Option Value :=
  b.entries.lookup name

/- A name just bound has its new value. -/
theorem find?_insert_self
    (name : String)
    (v : Value)
    (b : Bindings) :
    (b.insert name v).find? name = some v := by
  simp [insert, find?]

/- Binding a name leaves all other names alone. -/
theorem find?_insert_of_ne
    {name other : String}
    (h : other ≠ name)
    (v : Value)
    (b : Bindings) :
    (b.insert name v).find? other = b.find? other := by
  have hNames : (other == name) = false :=
    beq_eq_false_iff_ne.mpr h
  simp [insert, find?, List.lookup_cons, hNames]

end Bindings

end Llvm

end ExprCompiler
