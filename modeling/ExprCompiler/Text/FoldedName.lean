import ExprCompiler.Text.Glyph

/-
  Names that are compared without regard to case.

  Key definitions include:
    * `Text.foldedName`

  The names that this library knows are ASCII. Besides the
  ASCII capitals only two characters have an ASCII letter as
  their lower case, so no other mapping is needed to decide
  whether a folded text is such a name.
-/

------------------------------------------------------------
-- Folding Case
------------------------------------------------------------

namespace ExprCompiler

/- Lower case, where it leads to an ASCII letter. -/
def foldChar
    (c : Char) :
    Char :=
  if c = '\u0130' then 'i'
  else if c = '\u212A' then 'k'
  else c.toLower

/- The text in lower case. -/
def Text.foldedName
    (t : Text) :
    String :=
  String.ofList (t.glyphs.map fun g => foldChar g.toChar)

end ExprCompiler
