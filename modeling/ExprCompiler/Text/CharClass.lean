import ExprCompiler.Text.Glyph

/-
  Classes of characters given by ranges of code points, and
  the class of white space.

  Key definitions include:
    * `CharClass`
    * `CharClass.space`
    * `Text.isBlank`
-/

------------------------------------------------------------
-- Classes by Ranges
------------------------------------------------------------

namespace ExprCompiler

/- A class of characters, as inclusive code point ranges. -/
abbrev CharClass := List (Nat × Nat)

namespace CharClass

/- Whether one of the ranges holds the character. -/
def contains
    (cls : CharClass)
    (c : Char) :
    Bool :=
  cls.any fun range =>
    range.1 ≤ c.toNat && c.toNat ≤ range.2

------------------------------------------------------------
-- White Space
------------------------------------------------------------

/- The characters with the white space property. -/
def space : CharClass :=
  [(0x09, 0x0D), (0x20, 0x20), (0x85, 0x85), (0xA0, 0xA0),
   (0x1680, 0x1680), (0x2000, 0x200A), (0x2028, 0x2029),
   (0x202F, 0x202F), (0x205F, 0x205F), (0x3000, 0x3000)]

end CharClass

namespace Glyph

/- Whether a glyph is white space; a stray byte is not. -/
def isSpace
    (g : Glyph) :
    Bool :=
  CharClass.space.contains g.toChar

end Glyph

namespace Text

/- Whether a text holds nothing but white space. -/
def isBlank
    (t : Text) :
    Bool :=
  t.glyphs.all Glyph.isSpace

end Text

end ExprCompiler
