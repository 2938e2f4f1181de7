import ExprCompiler.Text.CharClass

/-
  Lexemes, the pieces of a line that tokens are made of.

  Key definitions include:
    * `Lexeme`
    * `Text.lexemes`

  Digits that stand side by side belong to one lexeme; every
  other glyph is a lexeme of its own.
-/

------------------------------------------------------------
-- Lexemes
------------------------------------------------------------

namespace ExprCompiler

namespace Glyph

/- The glyph's character, if it is an ASCII digit. -/
def digit? : Glyph → Option Char
| .char c => if c.isDigit then some c else none
| .stray _ => none

end Glyph

/- A run of digits, which is never empty, or one glyph. -/
inductive Lexeme where
  | digits (first : Char) (more : List Char)
  | glyph (g : Glyph)
deriving DecidableEq, Repr

namespace Lexeme

/- Puts a glyph in front of lexemes. -/
def cons
    (g : Glyph)
    (rest : List Lexeme) :
    List Lexeme :=
  match g.digit?, rest with
  | some c, .digits first more :: rest =>
      .digits c (first :: more) :: rest
  | some c, rest => .digits c [] :: rest
  | none, rest => .glyph g :: rest

/- Groups glyphs into lexemes. -/
def ofGlyphs
    (gs : List Glyph) :
    List Lexeme :=
  gs.foldr cons []

/- The number of bytes of a lexeme. -/
def size : Lexeme → Nat
| .digits _ more => more.length + 1
| .glyph g => g.size

end Lexeme

/- The lexemes of a text in reading order. -/
def Text.lexemes
    (t : Text) :
    List Lexeme :=
  Lexeme.ofGlyphs t.glyphs

end ExprCompiler
