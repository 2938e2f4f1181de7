/-
  Facts about numbers that the back ends rest on.

  Key definitions include:
    * `natural?`
    * `integer?`

  Main declarations:
    * `natural?_toDigits`
    * `integer?_repr`
    * `eq_of_toDigits_eq`
    * `int32_toInt_sign_append`
    * `int32_div_neg_one`
-/

------------------------------------------------------------
-- Numerals
------------------------------------------------------------

namespace ExprCompiler

/- The number with just these decimal digits. -/
def natural?
    (digits : List Char) :
    Option Nat :=
  let n := Nat.ofDigitChars 10 digits 0
  if Nat.toDigits 10 n = digits then some n else none

/- The integer that is written with or without a sign. -/
def integer? : List Char → Option Int
| '-' :: digits => (natural? digits).map fun n => -n
| digits => (natural? digits).map fun n => n

theorem natural?_toDigits
    (n : Nat) :
    natural? (Nat.toDigits 10 n) = some n := by
  simp [natural?]

/- A number is determined by its digits. -/
theorem eq_of_toDigits_eq
    {m n : Nat}
    (hDigits : Nat.toDigits 10 m = Nat.toDigits 10 n) :
    m = n := by
  have hValue := natural?_toDigits m
  rw [hDigits, natural?_toDigits] at hValue
  exact (Option.some.inj hValue).symm

/- Numbers are written in digits. -/
theorem notMem_toDigits
    {c : Char}
    (hDigit : c.isDigit = false)
    (n : Nat) :
    c ∉ Nat.toDigits 10 n := by
  intro hMem
  have hIs :=
    Nat.isDigit_of_mem_toDigits (by decide) (by decide) hMem
  rw [hDigit] at hIs
  cases hIs

theorem notMem_repr
    {c : Char}
    (hDigit : c.isDigit = false)
    (hSign : c ≠ '-')
    (v : Int) :
    c ∉ v.repr.toList := by
  cases v with
  | ofNat n => simp [Int.repr, notMem_toDigits hDigit]
  | negSucc n =>
      simp [Int.repr, notMem_toDigits hDigit, hSign]

theorem integer?_toDigits
    (n : Nat) :
    integer? (Nat.toDigits 10 n) = some (n : Int) := by
  have hSign := notMem_toDigits (c := '-') rfl n
  have hNumber := natural?_toDigits n
  cases hDigits : Nat.toDigits 10 n with
  | nil =>
      rw [hDigits] at hNumber
      cases hNumber
  | cons c digits =>
      rw [hDigits] at hSign hNumber
      have hOther : c ≠ '-' :=
        fun h => hSign (h ▸ List.mem_cons_self)
      simp [integer?, hOther, hNumber]

/- What holds another character is not an integer. -/
theorem integer?_eq_none_of_mem
    {c : Char}
    {text : List Char}
    (hDigit : c.isDigit = false)
    (hSign : c ≠ '-')
    (hMem : c ∈ text) :
    integer? text = none := by
  have hNatural :
      ∀ digits, c ∈ digits → natural? digits = none := by
    intro digits hMem
    refine if_neg fun hDigits => ?_
    rw [← hDigits] at hMem
    exact notMem_toDigits hDigit _ hMem
  unfold integer?
  split
  · rename_i digits
    have hRest := List.mem_of_ne_of_mem hSign hMem
    rw [hNatural digits hRest]
    rfl
  · rw [hNatural _ hMem]
    rfl

/- An integer is read back from how it is written. -/
theorem integer?_repr
    (v : Int) :
    integer? v.repr.toList = some v := by
  cases v with
  | ofNat n => simp [Int.repr, integer?_toDigits]
  | negSucc n =>
      have hText :
          (Int.negSucc n).repr.toList =
            '-' :: Nat.toDigits 10 (n + 1) := by
        simp [Int.repr]
      rw [hText, integer?, natural?_toDigits]
      rfl

------------------------------------------------------------
-- Numbers of 32 Bits
------------------------------------------------------------

/- Extending a number by its sign keeps its value. -/
theorem int32_toInt_sign_append
    (v : Int32) :
    ((if v < 0 then (-1 : Int32) else 0).toBitVec ++
        v.toBitVec).toInt =
      v.toInt := by
  have hValue :
      v.toInt =
        if 2 * v.toBitVec.toNat < 2 ^ 32 then
          (v.toBitVec.toNat : Int)
        else
          (v.toBitVec.toNat : Int) - (2 ^ 32 : Nat) :=
    BitVec.toInt_eq_toNat_cond v.toBitVec
  have hSign : v < 0 ↔ v.toInt < 0 := by
    rw [Int32.lt_iff_toInt_lt]
    rfl
  have hBound := v.toBitVec.isLt
  rw [BitVec.toInt_append]
  by_cases hNegative : v < 0
  · have hOnes : (-1 : Int32).toBitVec.toInt = -1 := by
      decide
    have hLess := hSign.mp hNegative
    rw [if_pos hNegative, hOnes]
    split at hValue
    · omega
    · simp
      omega
  · have hZeros : (0 : Int32).toBitVec.toInt = 0 := by
      decide
    have hLeast := mt hSign.mpr hNegative
    rw [if_neg hNegative, hZeros]
    split at hValue
    · simp
      omega
    · omega

/- Dividing by minus one is negation, also at the minimum. -/
theorem int32_div_neg_one
    (v : Int32) :
    v / -1 = -v := by
  have hOnes : (-1 : Int32).toInt = -1 := by
    decide
  apply Int32.toInt_inj.mp
  rw [Int32.toInt_div, hOnes, Int.tdiv_neg,
    Int.tdiv_one, Int32.toInt_neg]

end ExprCompiler
