/-
  Text as a string of bytes.

  A line handed to the compiler may hold any bytes, valid
  UTF-8 or not. Text is therefore a list of bytes, and every
  offset in this library counts bytes.

  Key definitions include:
    * `Text`
    * `Text.ofString`
-/

------------------------------------------------------------
-- Byte Strings
------------------------------------------------------------

namespace ExprCompiler

/- Text is the list of its bytes in reading order. -/
abbrev Text := List UInt8

namespace Text

/- The UTF-8 encoding of a string. -/
def ofString
    (s : String) :
    Text :=
  s.toList.flatMap String.utf8EncodeChar

/- A line feed. -/
def newline : Text := [0x0A]

end Text

end ExprCompiler
