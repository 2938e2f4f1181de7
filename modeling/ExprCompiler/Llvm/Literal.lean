/-
  How constants are written in LLVM text.

  Key definitions include:
    * `Llvm.Digits`
    * `Llvm.prefersHexadecimal`
    * `Llvm.literal`

  A constant is written in decimal, or in hexadecimal where
  that is made of clearly fewer different digits.
-/

------------------------------------------------------------
-- Digits of a Constant
------------------------------------------------------------

namespace ExprCompiler

namespace Llvm

/- The digits of a number in some base. -/
abbrev Digits := List Char

namespace Digits

/- The digits of a number, in lower case. -/
def ofNat
    (base n : Nat) :
    Digits :=
  Nat.toDigits base n

/- How many different digits there are. -/
def distinct
    (ds : Digits) :
    Nat :=
  ds.eraseDups.length

/-
  Digits are plain if there is at most one different digit
  for every three places or part of three.
-/
def isPlain
    (ds : Digits) :
    Bool :=
  3 * ds.distinct ≤ ds.length + 2

/-
  Whether the share of different digits among all digits is
  smaller than among others by more than a fifth.
-/
def isClearlyPlainer
    (ds other : Digits) :
    Bool :=
  ds.length * other.length +
      5 * (ds.distinct * other.length) <
    5 * (other.distinct * ds.length)

end Digits

------------------------------------------------------------
-- Notations of a Constant
------------------------------------------------------------

/-
  Hexadecimal is preferred for a number of four places or
  more that is plain in it and clearly plainer than in
  decimal.
-/
def prefersHexadecimal
    (n : Nat) :
    Bool :=
  let hex := Digits.ofNat 16 n
  let decimal := Digits.ofNat 10 n
  4 ≤ hex.length && hex.isPlain &&
    hex.isClearlyPlainer decimal

/- The text of a constant; a negative one is decimal. -/
def literal
    (v : Int32) :
    String :=
  let n := v.toInt
  if prefersHexadecimal n.toNat then
    "u0x" ++ String.ofList
      ((Digits.ofNat 16 n.toNat).map Char.toUpper)
  else
    toString n

end Llvm

end ExprCompiler
