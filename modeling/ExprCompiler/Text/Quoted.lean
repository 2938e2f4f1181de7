import ExprCompiler.Text.Printable

/-
  Text between quotes. Printable characters stand for
  themselves; every other character and every stray byte is
  written as an escape.

  Key definitions include:
    * `Glyph.escaped`
    * `Text.quoted`
    * `quotedChar`
-/

------------------------------------------------------------
-- Hexadecimal Digits
------------------------------------------------------------

namespace ExprCompiler

/-
  The lower-case hexadecimal digits of a number, with zeros
  in front up to the given width.
-/
def hexadecimal
    (width n : Nat) :
    String :=
  let digits := Nat.toDigits 16 n
  String.ofList
    (List.replicate (width - digits.length) '0' ++ digits)

------------------------------------------------------------
-- Escapes
------------------------------------------------------------

/- The escape of a character that is not printable. -/
def charEscape
    (c : Char) :
    String :=
  match c.toNat with
  | 0x07 => "\\a"
  | 0x08 => "\\b"
  | 0x09 => "\\t"
  | 0x0A => "\\n"
  | 0x0B => "\\v"
  | 0x0C => "\\f"
  | 0x0D => "\\r"
  | n =>
      if n < 0x20 ∨ n = 0x7F then
        "\\x" ++ hexadecimal 2 n
      else if n < 0x10000 then
        "\\u" ++ hexadecimal 4 n
      else
        "\\U" ++ hexadecimal 8 n

/- A glyph as it is written between the given quotes. -/
def Glyph.escaped
    (quote : Char) :
    Glyph → String
| .stray b => "\\x" ++ hexadecimal 2 b.toNat
| .char c =>
    if c = quote ∨ c = '\\' then
      String.ofList ['\\', c]
    else if CharClass.printable.contains c then
      String.singleton c
    else
      charEscape c

/- Glyphs between two quotes. -/
def quotedWith
    (quote : Char)
    (gs : List Glyph) :
    String :=
  String.singleton quote ++
    String.join (gs.map (Glyph.escaped quote)) ++
    String.singleton quote

/- A text between double quotes. -/
def Text.quoted
    (t : Text) :
    String :=
  quotedWith '\x22' t.glyphs

/- A character between single quotes. -/
def quotedChar
    (c : Char) :
    String :=
  quotedWith '\x27' [.char c]

end ExprCompiler
