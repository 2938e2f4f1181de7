import ExprCompiler.Text.Glyph
import Mathlib.Data.List.Induction

/-
  Glyphs are what UTF-8 makes of a text.

  Key definitions include:
    * `Glyph.trailing`
    * `Glyph.width`
    * `Text.Decodes`

  Main declarations:
    * `Glyph.multibyte?_eq_some_iff`
    * `Glyph.decode?_eq_some_iff`
    * `Text.decodes_iff`
    * `Text.Decodes.drop`
    * `Text.width_glyphs`

  A text decodes to a character wherever the encoding of a
  character begins, and to a stray byte wherever none does.
  There is exactly one way to decode a text.
-/

------------------------------------------------------------
-- Continuation Bytes
------------------------------------------------------------

namespace ExprCompiler

namespace Glyph

/- The continuation bytes with the lowest bits of a number. -/
def trailing : Nat → Nat → Text
| 0, _ => []
| count + 1, n =>
    trailing count (n / 64) ++ [UInt8.ofNat (n % 64 + 0x80)]

/- What is left of a number above these bits. -/
def upper : Nat → Nat → Nat
| 0, n => n
| count + 1, n => upper count (n / 64)

theorem upper_one
    (n : Nat) :
    upper 1 n = n / 64 :=
  rfl

theorem upper_two
    (n : Nat) :
    upper 2 n = n / 4096 := by
  rw [upper, upper_one, Nat.div_div_eq_div_mul]

theorem upper_three
    (n : Nat) :
    upper 3 n = n / 262144 := by
  rw [upper, upper_two, Nat.div_div_eq_div_mul]

/- Adds the bits of a continuation byte to a number. -/
def addBits
    (n : Nat)
    (b : UInt8) :
    Nat :=
  n * 64 + (b.toNat - 0x80)

theorem isContinuation_iff
    {b : UInt8} :
    isContinuation b = true ↔
      0x80 ≤ b.toNat ∧ b.toNat < 0xC0 := by
  simp [isContinuation, UInt8.le_iff_toNat_le,
    UInt8.lt_iff_toNat_lt]

theorem toNat_continuation
    (n : Nat) :
    (UInt8.ofNat (n % 64 + 0x80)).toNat = n % 64 + 0x80 := by
  rw [UInt8.toNat_ofNat']
  omega

theorem length_trailing
    (count n : Nat) :
    (trailing count n).length = count := by
  induction count generalizing n with
  | zero => rfl
  | succ count ih => simp [trailing, ih]

theorem isContinuation_of_mem_trailing
    {count n : Nat}
    {b : UInt8}
    (hMem : b ∈ trailing count n) :
    isContinuation b = true := by
  induction count generalizing n with
  | zero => simp [trailing] at hMem
  | succ count ih =>
      rw [trailing, List.mem_append,
        List.mem_singleton] at hMem
      rcases hMem with hMem | rfl
      · exact ih hMem
      · rw [isContinuation_iff, toNat_continuation]
        omega

/- The bits of a number are put together again. -/
theorem foldl_trailing
    (count n : Nat) :
    (trailing count n).foldl addBits (upper count n) =
      n := by
  induction count generalizing n with
  | zero => rfl
  | succ count ih =>
      have hLast :
          addBits (n / 64) (UInt8.ofNat (n % 64 + 0x80)) =
            n := by
        have hBits := toNat_continuation n
        unfold addBits
        omega
      rw [trailing, List.foldl_append, upper, ih (n / 64)]
      exact hLast

/- Bytes that were put together are found again. -/
theorem trailing_foldl
    {tail : Text}
    (hTail : tail.all isContinuation = true)
    (lead : Nat) :
    trailing tail.length (tail.foldl addBits lead) = tail ∧
      upper tail.length (tail.foldl addBits lead) =
        lead := by
  -- The last byte holds the lowest bits, so the induction
  -- takes bytes from the end.
  induction tail using List.reverseRecOn with
  | nil => exact ⟨rfl, rfl⟩
  | append_singleton tail b ih =>
      rw [List.all_append, Bool.and_eq_true] at hTail
      rcases ih hTail.1 with ⟨hBytes, hLead⟩
      have hLast :=
        isContinuation_iff.mp (by simpa using hTail.2)
      have hFold :
          (tail ++ [b]).foldl addBits lead =
            tail.foldl addBits lead * 64 +
              (b.toNat - 0x80) := by
        rw [List.foldl_append]
        rfl
      have hDiv :
          (tail.foldl addBits lead * 64 +
              (b.toNat - 0x80)) / 64 =
            tail.foldl addBits lead := by
        omega
      have hMod :
          (tail.foldl addBits lead * 64 +
              (b.toNat - 0x80)) % 64 + 0x80 =
            b.toNat := by
        omega
      rw [hFold, List.length_append, List.length_singleton]
      constructor
      · rw [trailing, hDiv, hMod, hBytes,
          UInt8.ofNat_toNat]
      · rw [upper, hDiv, hLead]

------------------------------------------------------------
-- Encodings of Characters
------------------------------------------------------------

section Encodings

variable {c : Char}

theorem toNat_ofNat_of_isValidChar
    {n : Nat}
    (hValid : n.isValidChar) :
    (Char.ofNat n).toNat = n := by
  rw [Char.ofNat, dif_pos hValid]
  rfl

theorem toNat_char_lt
    (c : Char) :
    c.toNat < 0x110000 := by
  rcases c.valid with hLow | hHigh
  · exact Nat.lt_trans hLow (by decide)
  · exact hHigh.2

theorem utf8EncodeChar_one
    (hLess : c.toNat < 0x80) :
    String.utf8EncodeChar c = [UInt8.ofNat c.toNat] := by
  have hCode : c.val.toNat = c.toNat := rfl
  simp only [String.utf8EncodeChar, hCode]
  rw [if_pos (by omega)]

theorem utf8EncodeChar_two
    (hLeast : 0x80 ≤ c.toNat)
    (hLess : c.toNat < 0x800) :
    String.utf8EncodeChar c =
      UInt8.ofNat (c.toNat / 64 + 0xC0) ::
        trailing 1 c.toNat := by
  have hCode : c.val.toNat = c.toNat := rfl
  have hLead : c.toNat / 64 % 0x20 = c.toNat / 64 := by
    omega
  simp only [String.utf8EncodeChar, hCode]
  rw [if_neg (by omega), if_pos (by omega), hLead]
  rfl

theorem utf8EncodeChar_three
    (hLeast : 0x800 ≤ c.toNat)
    (hLess : c.toNat < 0x10000) :
    String.utf8EncodeChar c =
      UInt8.ofNat (c.toNat / 4096 + 0xE0) ::
        trailing 2 c.toNat := by
  have hCode : c.val.toNat = c.toNat := rfl
  have hLead : c.toNat / 4096 % 0x10 = c.toNat / 4096 := by
    omega
  simp only [String.utf8EncodeChar, hCode]
  rw [if_neg (by omega), if_neg (by omega),
    if_pos (by omega), hLead]
  rfl

theorem utf8EncodeChar_four
    (hLeast : 0x10000 ≤ c.toNat) :
    String.utf8EncodeChar c =
      UInt8.ofNat (c.toNat / 262144 + 0xF0) ::
        trailing 3 c.toNat := by
  have hCode : c.val.toNat = c.toNat := rfl
  have hBound := toNat_char_lt c
  have hLead :
      c.toNat / 262144 % 0x08 = c.toNat / 262144 := by
    omega
  have hNext : c.toNat / 4096 = c.toNat / 64 / 64 := by
    omega
  simp only [String.utf8EncodeChar, hCode]
  rw [if_neg (by omega), if_neg (by omega),
    if_neg (by omega), hLead, hNext]
  rfl

end Encodings

------------------------------------------------------------
-- Decoding One Character
------------------------------------------------------------

/-
  A character of several bytes is read where its bytes are,
  and where it needs as many bytes as that.
-/
theorem multibyte?_eq_some_iff
    {count lead least : Nat}
    {rest : Text}
    {c : Char} :
    multibyte? count lead least rest = some c ↔
      trailing count c.toNat <+: rest ∧
        upper count c.toNat = lead ∧ least ≤ c.toNat := by
  have hUnfold :
      multibyte? count lead least rest =
        let tail := rest.take count
        let code := tail.foldl addBits lead
        if tail.length = count ∧
            tail.all isContinuation = true ∧
            least ≤ code ∧ code.isValidChar then
          some (Char.ofNat code)
        else
          none := rfl
  rw [hUnfold]
  constructor
  · intro hSome
    dsimp only at hSome
    split at hSome
    · rename_i hConditions
      rcases hConditions with
        ⟨hLength, hTail, hLeast, hValid⟩
      rcases trailing_foldl hTail lead with ⟨hBytes, hLead⟩
      cases hSome
      rw [hLength] at hBytes hLead
      rw [toNat_ofNat_of_isValidChar hValid]
      refine ⟨?_, hLead, hLeast⟩
      rw [hBytes]
      exact List.take_prefix count rest
    · cases hSome
  · rintro ⟨hPrefix, rfl, hLeast⟩
    have hTake :
        rest.take count = trailing count c.toNat := by
      rw [List.prefix_iff_eq_take,
        length_trailing] at hPrefix
      exact hPrefix.symm
    have hTail :
        (trailing count c.toNat).all isContinuation =
          true := by
      rw [List.all_eq_true]
      intro b hMem
      exact isContinuation_of_mem_trailing hMem
    simp only [hTake, foldl_trailing]
    rw [if_pos ⟨length_trailing _ _, hTail, hLeast, c.valid⟩,
      Char.ofNat_toNat]

section FirstByte

variable {b : UInt8} {n : Nat} {tail rest : Text}

theorem cons_prefix_of_toNat_eq
    (hByte : b.toNat = n)
    (hTail : tail <+: rest) :
    UInt8.ofNat n :: tail <+: b :: rest := by
  rw [← hByte, UInt8.ofNat_toNat]
  exact List.cons_prefix_cons.mpr ⟨rfl, hTail⟩

theorem toNat_eq_of_cons_prefix
    (hPrefix : UInt8.ofNat n :: tail <+: b :: rest)
    (hLess : n < 256) :
    b.toNat = n ∧ tail <+: rest := by
  rw [List.cons_prefix_cons] at hPrefix
  refine ⟨?_, hPrefix.2⟩
  rw [← hPrefix.1, UInt8.toNat_ofNat',
    Nat.mod_eq_of_lt hLess]

end FirstByte

/- What is decoded stands encoded in the text. -/
theorem utf8EncodeChar_prefix_of_decode?
    {b : UInt8}
    {rest : Text}
    {c : Char}
    (hDecode : decode? b rest = some c) :
    String.utf8EncodeChar c <+: b :: rest := by
  simp only [decode?, UInt8.lt_iff_toNat_lt,
    UInt8.reduceToNat] at hDecode
  split at hDecode
  · rename_i hLess
    have hChar : c.toNat = b.toNat := by
      cases hDecode
      exact toNat_ofNat_of_isValidChar
        (.inl (Nat.lt_trans hLess (by decide)))
    rw [utf8EncodeChar_one (by omega)]
    exact cons_prefix_of_toNat_eq hChar.symm
      List.nil_prefix
  split at hDecode
  · cases hDecode
  split at hDecode
  · rcases multibyte?_eq_some_iff.mp hDecode with
      ⟨hTail, hLead, hLeast⟩
    rw [upper_one] at hLead
    rw [utf8EncodeChar_two hLeast (by omega)]
    exact cons_prefix_of_toNat_eq (by omega) hTail
  split at hDecode
  · rcases multibyte?_eq_some_iff.mp hDecode with
      ⟨hTail, hLead, hLeast⟩
    rw [upper_two] at hLead
    rw [utf8EncodeChar_three hLeast (by omega)]
    exact cons_prefix_of_toNat_eq (by omega) hTail
  split at hDecode
  · rcases multibyte?_eq_some_iff.mp hDecode with
      ⟨hTail, hLead, hLeast⟩
    rw [upper_three] at hLead
    rw [utf8EncodeChar_four hLeast]
    exact cons_prefix_of_toNat_eq (by omega) hTail
  · cases hDecode

/- What stands encoded in the text is decoded. -/
theorem decode?_of_utf8EncodeChar_prefix
    {b : UInt8}
    {rest : Text}
    {c : Char}
    (hPrefix : String.utf8EncodeChar c <+: b :: rest) :
    decode? b rest = some c := by
  have hBound := toNat_char_lt c
  simp only [decode?, UInt8.lt_iff_toNat_lt,
    UInt8.reduceToNat]
  rcases Nat.lt_or_ge c.toNat 0x80 with hOne | hOne
  · rw [utf8EncodeChar_one hOne] at hPrefix
    rcases toNat_eq_of_cons_prefix hPrefix (by omega) with
      ⟨hByte, -⟩
    rw [if_pos (by omega), hByte, Char.ofNat_toNat]
  rcases Nat.lt_or_ge c.toNat 0x800 with hTwo | hTwo
  · rw [utf8EncodeChar_two hOne hTwo] at hPrefix
    rcases toNat_eq_of_cons_prefix hPrefix (by omega) with
      ⟨hByte, hTail⟩
    rw [if_neg (by omega), if_neg (by omega),
      if_pos (by omega), multibyte?_eq_some_iff, upper_one]
    exact ⟨hTail, by omega, hOne⟩
  rcases Nat.lt_or_ge c.toNat 0x10000 with hThree | hThree
  · rw [utf8EncodeChar_three hTwo hThree] at hPrefix
    rcases toNat_eq_of_cons_prefix hPrefix (by omega) with
      ⟨hByte, hTail⟩
    rw [if_neg (by omega), if_neg (by omega),
      if_neg (by omega), if_pos (by omega),
      multibyte?_eq_some_iff, upper_two]
    exact ⟨hTail, by omega, hTwo⟩
  · rw [utf8EncodeChar_four hThree] at hPrefix
    rcases toNat_eq_of_cons_prefix hPrefix (by omega) with
      ⟨hByte, hTail⟩
    rw [if_neg (by omega), if_neg (by omega),
      if_neg (by omega), if_neg (by omega),
      if_pos (by omega), multibyte?_eq_some_iff,
      upper_three]
    exact ⟨hTail, by omega, hThree⟩

/- A character is decoded exactly where it is encoded. -/
theorem decode?_eq_some_iff
    {b : UInt8}
    {rest : Text}
    {c : Char} :
    decode? b rest = some c ↔
      String.utf8EncodeChar c <+: b :: rest :=
  ⟨utf8EncodeChar_prefix_of_decode?,
    decode?_of_utf8EncodeChar_prefix⟩

theorem leading_of_utf8EncodeChar_prefix
    {b : UInt8}
    {rest : Text}
    {c : Char}
    (hPrefix : String.utf8EncodeChar c <+: b :: rest) :
    leading b rest = .char c := by
  rw [leading, decode?_eq_some_iff.mpr hPrefix]

theorem leading_of_no_utf8EncodeChar_prefix
    {b : UInt8}
    {rest : Text}
    (hStray :
      ∀ c, ¬ String.utf8EncodeChar c <+: b :: rest) :
    leading b rest = .stray b := by
  unfold leading
  cases hDecode : decode? b rest with
  | none => rfl
  | some c =>
      exact absurd (decode?_eq_some_iff.mp hDecode)
        (hStray c)

------------------------------------------------------------
-- Widths
------------------------------------------------------------

/- The number of bytes that glyphs were read from. -/
def width : List Glyph → Nat
| [] => 0
| g :: gs => g.size + width gs

theorem length_flatMap_bytes
    (gs : List Glyph) :
    (gs.flatMap bytes).length = width gs := by
  induction gs with
  | nil => rfl
  | cons g gs ih =>
      rw [List.flatMap_cons, List.length_append, ih,
        length_bytes, width]

theorem width_append
    (gs hs : List Glyph) :
    width (gs ++ hs) = width gs + width hs := by
  simp only [← length_flatMap_bytes, List.flatMap_append,
    List.length_append]

end Glyph

------------------------------------------------------------
-- Decoding Texts
------------------------------------------------------------

namespace Text

/-
  A text decodes to glyphs: to a character and what follows
  its encoding, or to a byte that begins no encoding and
  what follows the byte.
-/
inductive Decodes : Text → List Glyph → Prop
  | nil :
      Decodes [] []
  | char
      {rest : Text}
      {gs : List Glyph}
      (c : Char)
      (h : Decodes rest gs) :
      Decodes (String.utf8EncodeChar c ++ rest)
        (.char c :: gs)
  | stray
      {b : UInt8}
      {rest : Text}
      {gs : List Glyph}
      (hStray :
        ∀ c, ¬ String.utf8EncodeChar c <+: b :: rest)
      (h : Decodes rest gs) :
      Decodes (b :: rest) (.stray b :: gs)

theorem glyphs_char_append
    (c : Char)
    (rest : Text) :
    glyphs (String.utf8EncodeChar c ++ rest) =
      .char c :: glyphs rest := by
  have hLength := String.length_utf8EncodeChar c
  have hPos := c.utf8Size_pos
  cases hEncode : String.utf8EncodeChar c with
  | nil =>
      rw [hEncode, List.length_nil] at hLength
      omega
  | cons b tail =>
      have hLeading :
          Glyph.leading b (tail ++ rest) = .char c := by
        apply Glyph.leading_of_utf8EncodeChar_prefix
        rw [hEncode]
        exact List.prefix_append (b :: tail) rest
      have hSize : c.utf8Size - 1 = tail.length := by
        rw [← hLength, hEncode]
        rfl
      rw [List.cons_append, glyphs_cons, hLeading,
        Glyph.size, hSize, List.drop_left]

theorem glyphs_stray_cons
    {b : UInt8}
    {rest : Text}
    (hStray :
      ∀ c, ¬ String.utf8EncodeChar c <+: b :: rest) :
    glyphs (b :: rest) = .stray b :: glyphs rest := by
  rw [glyphs_cons,
    Glyph.leading_of_no_utf8EncodeChar_prefix hStray]
  rfl

theorem decodes_glyphs
    (t : Text) :
    t.Decodes t.glyphs := by
  induction hLength : t.length using Nat.strongRecOn
    generalizing t with
  | ind n ih =>
      subst hLength
      cases t with
      | nil => exact .nil
      | cons b rest =>
          by_cases hChar :
              ∃ c, String.utf8EncodeChar c <+: b :: rest
          · rcases hChar with ⟨c, tail, hTail⟩
            have hPos := c.utf8Size_pos
            have hLess :
                tail.length < (b :: rest).length := by
              rw [← hTail, List.length_append,
                String.length_utf8EncodeChar]
              omega
            rw [← hTail, glyphs_char_append]
            exact .char c (ih _ hLess tail rfl)
          · have hStray := not_exists.mp hChar
            rw [glyphs_stray_cons hStray]
            exact .stray hStray
              (ih _ (Nat.lt_succ_self _) rest rfl)

/- A text decodes to its glyphs and to nothing else. -/
theorem decodes_iff
    {t : Text}
    {gs : List Glyph} :
    t.Decodes gs ↔ gs = t.glyphs := by
  constructor
  · intro hDecodes
    induction hDecodes with
    | nil => rfl
    | char c _ ih => rw [glyphs_char_append, ih]
    | stray hStray _ ih => rw [glyphs_stray_cons hStray, ih]
  · rintro rfl
    exact decodes_glyphs t

/- Behind the bytes of some glyphs there are the others. -/
theorem Decodes.drop
    {t : Text}
    {before after : List Glyph}
    (hDecodes : Decodes t (before ++ after)) :
    Decodes (t.drop (Glyph.width before)) after := by
  induction before generalizing t with
  | nil => exact hDecodes
  | cons g before ih =>
      cases hDecodes with
      | char c hRest =>
          rw [Glyph.width, Glyph.size,
            ← String.length_utf8EncodeChar,
            List.drop_length_add_append]
          exact ih hRest
      | stray _ hRest =>
          rw [Glyph.width, Glyph.size, Nat.add_comm,
            List.drop_succ_cons]
          exact ih hRest

/- No byte of a text is lost. -/
theorem flatMap_bytes_glyphs
    (t : Text) :
    t.glyphs.flatMap Glyph.bytes = t := by
  have hDecodes := decodes_glyphs t
  generalize t.glyphs = gs at hDecodes
  induction hDecodes with
  | nil => rfl
  | char c _ ih => rw [List.flatMap_cons, ih, Glyph.bytes]
  | stray _ _ ih =>
      rw [List.flatMap_cons, ih, Glyph.bytes,
        List.singleton_append]

theorem width_glyphs
    (t : Text) :
    Glyph.width t.glyphs = t.length := by
  rw [← Glyph.length_flatMap_bytes, flatMap_bytes_glyphs]

end Text

end ExprCompiler
