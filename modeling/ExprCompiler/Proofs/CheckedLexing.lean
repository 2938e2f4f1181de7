import ExprCompiler.Proofs.LexerCorrectness

/-
  What it means to check the width of numbers.

  Key definitions include:
    * `Glyph.IsRun`
    * `Lexeme.IsWide`

  Main declarations:
    * `Numeral.exists_read_check_iff`
    * `Lexeme.tokens_check_eq_ok_iff`
    * `Lexeme.tokens_check_error_cases`
    * `lex_check_refines_wrap`

  The check is made at every digit, on the 32 bits read so
  far, and finds exactly the numbers that do not fit. A line
  has the same tokens with and without it, unless a number
  is too wide; then the number is an error like a glyph that
  belongs to no token, and the first error of either kind
  counts.
-/

------------------------------------------------------------
-- Wide Numbers
------------------------------------------------------------

namespace ExprCompiler

namespace Numeral

/- Further digits never make a number smaller. -/
theorem le_ofDigitChars
    (digits : List Char)
    (n : Nat) :
    n ≤ Nat.ofDigitChars 10 digits n := by
  rw [Nat.ofDigitChars_eq_ofDigitChars_zero]
  have hPower : 1 ≤ 10 ^ digits.length :=
    Nat.one_le_pow _ _ (by decide)
  calc
    n = 1 * n := (Nat.one_mul n).symm
    _ ≤ 10 ^ digits.length * n := Nat.mul_le_mul_right n hPower
    _ ≤ 10 ^ digits.length * n +
          Nat.ofDigitChars 10 digits 0 := Nat.le_add_right _ _

/-
  Digits pass the check if and only if the number that they
  end with fits, whatever zeros they begin with.
-/
theorem exists_read_check_iff
    {n : Nat}
    (hFits : n < UInt32.size)
    (digits : List Char) :
    (∃ v, read .check (UInt32.ofNat n) digits = .value v) ↔
      Nat.ofDigitChars 10 digits n < UInt32.size := by
  induction digits generalizing n with
  | nil => simpa [read] using hFits
  | cons c digits ih =>
      have hSame : (UInt32.ofNat n).toNat = n :=
        UInt32.toNat_ofNat_of_lt' hFits
      rw [read_cons, hSame, Nat.ofDigitChars_cons,
        Nat.mul_comm n 10]
      by_cases hWide :
          UInt32.size ≤ 10 * n + digitValue c
      · have hGrows :=
          le_ofDigitChars digits (10 * n + digitValue c)
        rw [if_pos ⟨rfl, hWide⟩]
        constructor
        · rintro ⟨v, hRead⟩
          cases hRead
        · intro hLess
          exact absurd (Nat.le_trans hWide hGrows)
            (Nat.not_le.mpr hLess)
      · rw [if_neg fun hBoth => hWide hBoth.2]
        exact ih (Nat.not_le.mp hWide)

theorem exists_read_check_zero_iff
    {digits : List Char} :
    (∃ v, read .check 0 digits = .value v) ↔
      decimal digits < UInt32.size :=
  exists_read_check_iff (by decide) digits

end Numeral

------------------------------------------------------------
-- Lexemes under Both Policies
------------------------------------------------------------

namespace Lexeme

/- A number that needs more than 32 bits. -/
def IsWide : Lexeme → Prop
| .digits first more =>
    UInt32.size ≤ Numeral.decimal (first :: more)
| .glyph _ => False

/- Checking a lexeme that fits changes nothing. -/
theorem token?_check_of_not_isWide
    {l : Lexeme}
    (hFits : ¬ l.IsWide)
    (offset : Nat) :
    l.token? .check offset = l.token? .wrap offset := by
  cases l with
  | glyph g => rfl
  | digits first more =>
      rcases Numeral.exists_read_check_zero_iff.mpr
          (Nat.not_le.mp hFits) with
        ⟨v, hRead⟩
      have hToken :
          token? .check offset (.digits first more) =
            .ok (some ⟨offset, .ofNumber v⟩) := by
        rw [token?, hRead]
      rw [hToken, eq_of_token?_digits hToken,
        token?_digits (by decide)]

/- A number that is too wide is an error as a whole. -/
theorem token?_check_of_isWide
    {l : Lexeme}
    (hWide : l.IsWide) :
    ∃ first more, l = .digits first more ∧
      ∀ offset, l.token? .check offset =
        .error ⟨offset, first.toNat,
          .overflow (first :: more)⟩ := by
  cases l with
  | glyph g => cases hWide
  | digits first more =>
      refine ⟨first, more, rfl, fun offset => ?_⟩
      rw [token?]
      cases hRead : Numeral.read .check 0 (first :: more) with
      | overflow unread => rfl
      | value v =>
          have hFits :=
            Numeral.exists_read_check_zero_iff.mp ⟨v, hRead⟩
          exact absurd hWide (Nat.not_le.mpr hFits)

section Sequences

variable {offset : Nat}
variable {ls : List Lexeme}
variable {ts : List PlacedToken}
variable {e : LexError}

theorem tokens_check_eq_ok_iff :
    tokens .check offset ls = .ok ts ↔
      tokens .wrap offset ls = .ok ts ∧
        ∀ l ∈ ls, ¬ l.IsWide := by
  induction ls generalizing offset ts with
  | nil => simp [tokens]
  | cons l ls ih =>
      rw [tokens_cons_eq_ok_iff, tokens_cons_eq_ok_iff,
        List.forall_mem_cons]
      simp only [ih]
      by_cases hWide : l.IsWide
      · rcases token?_check_of_isWide hWide with
          ⟨first, more, _, hToken⟩
        simp [hToken, hWide]
      · simp only [token?_check_of_not_isWide hWide]
        constructor
        · rintro ⟨t, us, hFirst, ⟨hRest, hFit⟩, rfl⟩
          exact ⟨⟨t, us, hFirst, hRest, rfl⟩, hWide, hFit⟩
        · rintro ⟨⟨t, us, hFirst, hRest, rfl⟩, _, hFit⟩
          exact ⟨t, us, hFirst, ⟨hRest, hFit⟩, rfl⟩

/- The first lexeme of a kind is in front of all others. -/
theorem eq_or_span_lt_of_first
    {P : Lexeme → Prop}
    {before before' after after' : List Lexeme}
    {l l' : Lexeme}
    (hSplit : before ++ l :: after = before' ++ l' :: after')
    (hBefore : ∀ m ∈ before, ¬ P m)
    (hLater : P l') :
    l = l' ∧ before = before' ∨
      span before < span before' := by
  induction before generalizing before' with
  | nil =>
      cases before' with
      | nil =>
          cases hSplit
          exact .inl ⟨rfl, rfl⟩
      | cons m before' =>
          have hPos := m.size_pos
          simp only [span]
          omega
  | cons m before ih =>
      rw [List.forall_mem_cons] at hBefore
      cases before' with
      | nil =>
          cases hSplit
          exact absurd hLater hBefore.1
      | cons m' before' =>
          rw [List.cons_append, List.cons_append] at hSplit
          injection hSplit with hHead hTail
          subst hHead
          rcases ih hTail hBefore.2 with
            ⟨rfl, rfl⟩ | hLess
          · exact .inl ⟨rfl, rfl⟩
          · simp only [span]
            omega

/-
  The error of checked lexemes is the one that they have
  anyway, with no wide number in front of it, or else their
  first wide number, with no other error in front of it.
-/
theorem tokens_check_error_cases
    (hTokens : tokens .check offset ls = .error e) :
    (tokens .wrap offset ls = .error e ∧
        ∀ before l after, ls = before ++ l :: after →
          l.IsWide → e.offset < (offset + span before : Nat)) ∨
      (∃ before first more after,
        ls = before ++ .digits first more :: after ∧
          IsWide (.digits first more) ∧
          (∀ before' l' after',
            ls = before' ++ l' :: after' → l'.IsWide →
              span before ≤ span before') ∧
          (∀ e', tokens .wrap offset ls = .error e' →
            (offset + span before : Nat) < e'.offset) ∧
          e = ⟨(offset + span before : Nat), first.toNat,
            .overflow (first :: more)⟩) := by
  rcases exists_split_of_tokens_eq_error hTokens with
    ⟨before, l, after, us, rfl, hBefore, hToken⟩
  rcases tokens_check_eq_ok_iff.mp hBefore with
    ⟨hOthers, hFit⟩
  by_cases hWide : l.IsWide
  · right
    rcases token?_check_of_isWide hWide with
      ⟨first, more, rfl, hError⟩
    refine ⟨before, first, more, after, rfl, hWide, ?_, ?_,
      ?_⟩
    · intro before' l' after' hSplit hWide'
      rcases eq_or_span_lt_of_first hSplit hFit hWide' with
        ⟨_, rfl⟩ | hLess
      · exact Nat.le_refl _
      · exact Nat.le_of_lt hLess
    · intro e' hOther
      rcases tokens_append_eq_error_iff.mp hOther with
        hEarlier | ⟨_, _, hLater⟩
      · rw [hOthers] at hEarlier
        cases hEarlier
      · rcases tokens_cons_eq_error_iff.mp hLater with
          hHere | ⟨_, _, hBehind⟩
        · rw [token?_digits (by decide)] at hHere
          cases hHere
        · have hBounds := error_offset_mem_bounds hBehind
          have hPos := size_pos (.digits first more)
          omega
    · rw [hError] at hToken
      cases hToken
      rfl
  · left
    rw [token?_check_of_not_isWide hWide] at hToken
    refine ⟨tokens_append_eq_error_iff.mpr (.inr
      ⟨us, hOthers, tokens_cons_eq_error_iff.mpr
        (.inl hToken)⟩), ?_⟩
    intro before' l' after' hSplit hWide'
    rcases eq_or_span_lt_of_first hSplit hFit hWide' with
      ⟨rfl, _⟩ | hLess
    · exact absurd hWide' hWide
    · rw [(place_of_token?_eq_error hToken).1]
      omega

end Sequences

end Lexeme

------------------------------------------------------------
-- Runs of Digits
------------------------------------------------------------

namespace Glyph

/-
  Digits stand among glyphs, behind some and in front of
  others, and no digit is next to them.
-/
structure IsRun
    (gs before : List Glyph)
    (digits : List Char)
    (after : List Glyph) :
    Prop where
  glyphs_eq : gs = before ++ (digits.map .char ++ after)
  nonempty : digits ≠ []
  isDigit : ∀ c ∈ digits, c.isDigit = true
  seam_before : Seam before (digits.map .char)
  seam_after : Seam (digits.map .char) after

section Runs

variable {gs before after : List Glyph}

/- A run of digits is a lexeme. -/
theorem IsRun.exists_lexeme
    {digits : List Char}
    (hRun : IsRun gs before digits after) :
    ∃ first more, digits = first :: more ∧
      Lexeme.ofGlyphs gs =
        Lexeme.ofGlyphs before ++
          .digits first more :: Lexeme.ofGlyphs after := by
  cases digits with
  | nil => exact absurd rfl hRun.nonempty
  | cons first more =>
      exact ⟨first, more, rfl,
        Lexeme.ofGlyphs_eq_append_cons_iff.mpr
          ⟨before, after, hRun.glyphs_eq, hRun.isDigit,
            hRun.seam_before, hRun.seam_after, rfl, rfl⟩⟩

/- A lexeme of digits is a run. -/
theorem exists_isRun
    {first : Char}
    {more : List Char}
    {ls ms : List Lexeme}
    (hLexemes :
      Lexeme.ofGlyphs gs = ls ++ .digits first more :: ms) :
    ∃ before after, IsRun gs before (first :: more) after ∧
      width before = Lexeme.span ls := by
  rcases Lexeme.ofGlyphs_eq_append_cons_iff.mp
      hLexemes with
    ⟨before, after, hGlyphs, hDigits, hBefore, hAfter, rfl,
      _⟩
  exact ⟨before, after,
    ⟨hGlyphs, List.cons_ne_nil first more, hDigits, hBefore,
      hAfter⟩,
    (Lexeme.span_ofGlyphs before).symm⟩

/- Wide lexemes are the runs of digits that do not fit. -/
theorem forall_not_isWide_iff :
    (∀ l ∈ Lexeme.ofGlyphs gs, ¬ l.IsWide) ↔
      ∀ before digits after, IsRun gs before digits after →
        Numeral.decimal digits < UInt32.size := by
  constructor
  · intro hFit before digits after hRun
    rcases hRun.exists_lexeme with
      ⟨first, more, rfl, hLexemes⟩
    have hMem :
        .digits first more ∈ Lexeme.ofGlyphs gs := by
      simp [hLexemes]
    exact Nat.not_le.mp (hFit _ hMem)
  · intro hFit l hMem hWide
    rcases List.append_of_mem hMem with
      ⟨ls, ms, hLexemes⟩
    cases l with
    | glyph g => cases hWide
    | digits first more =>
        rcases exists_isRun hLexemes with
          ⟨before, after, hRun, _⟩
        exact absurd hWide
          (Nat.not_le.mpr (hFit _ _ _ hRun))

end Runs

end Glyph

------------------------------------------------------------
-- Quoted Digits
------------------------------------------------------------

theorem CharClass.contains_of_mem
    {cls : CharClass}
    {low high : Nat}
    (hMem : (low, high) ∈ cls)
    {c : Char}
    (hLow : low ≤ c.toNat)
    (hHigh : c.toNat ≤ high) :
    cls.contains c = true := by
  refine List.any_eq_true.mpr ⟨(low, high), hMem, ?_⟩
  rw [Bool.and_eq_true, decide_eq_true_eq,
    decide_eq_true_eq]
  exact ⟨hLow, hHigh⟩

/- A digit stands for itself between quotes. -/
theorem Glyph.escaped_digit
    {c : Char}
    (hDigit : c.isDigit = true) :
    escaped '\x22' (.char c) = String.singleton c := by
  have hRange : 0x30 ≤ c.toNat ∧ c.toNat ≤ 0x39 := by
    simpa [Char.isDigit, UInt32.le_iff_toNat_le]
      using hDigit
  have hPlain : ¬ (c = '\x22' ∨ c = '\\') := by
    rintro (rfl | rfl)
    · exact absurd hRange.1 (by decide)
    · exact absurd hRange.2 (by decide)
  have hPrintable :
      CharClass.printable.contains c = true :=
    CharClass.contains_of_mem List.mem_cons_self
      (Nat.le_trans (by decide) hRange.1)
      (Nat.le_trans hRange.2 (by decide))
  rw [escaped, if_neg hPlain, if_pos hPrintable]

theorem quotedWith_digits
    {digits : List Char}
    (hDigits : ∀ c ∈ digits, c.isDigit = true) :
    quotedWith '\x22' (digits.map .char) =
      "\"" ++ String.ofList digits ++ "\"" := by
  have hEscaped :
      (digits.map .char).map (Glyph.escaped '\x22') =
        digits.map String.singleton := by
    rw [List.map_map]
    apply List.map_congr_left
    intro c hMem
    exact Glyph.escaped_digit (hDigits c hMem)
  have hJoin :
      String.join (digits.map String.singleton) =
        String.ofList digits := by
    apply String.toList_inj.mp
    simp [List.flatMap_map]
  rw [quotedWith, hEscaped, hJoin]
  rfl

/- The message about a wide number quotes all its digits. -/
theorem LexReason.message_overflow
    {digits : List Char}
    (hDigits : ∀ c ∈ digits, c.isDigit = true) :
    (overflow digits).message =
      "number literal \"" ++ String.ofList digits ++
        "\" overflows 32 bits" := by
  have hOpen :
      "number literal " ++ "\"" = "number literal \"" := by
    decide
  have hClose :
      "\"" ++ " overflows 32 bits" =
        "\" overflows 32 bits" := by
    decide
  calc
    (overflow digits).message =
        "number literal " ++
          quotedWith '\x22' (digits.map .char) ++
          " overflows 32 bits" := rfl
    _ = ("number literal " ++ "\"") ++
          String.ofList digits ++
          ("\"" ++ " overflows 32 bits") := by
        rw [quotedWith_digits hDigits]
        simp only [String.append_assoc]
    _ = "number literal \"" ++ String.ofList digits ++
          "\" overflows 32 bits" := by
        rw [hOpen, hClose]

------------------------------------------------------------
-- Checked Lines
------------------------------------------------------------

/-
  With numbers checked, lexing succeeds exactly on the lines
  that have tokens anyway and whose runs of digits all fit
  into 32 bits, and finds the same tokens. Otherwise it
  tells what comes first, the error that the line has anyway
  or the first run of digits that does not fit.
-/
theorem lex_check_refines_wrap
    (line : Text) :
    ∃ gs,
      (∀ gs', line.Decodes gs' ↔ gs' = gs) ∧
        (∀ ts, lex .check line = .ok ts ↔
          lex .wrap line = .ok ts ∧
            ∀ before digits after,
              Glyph.IsRun gs before digits after →
                Numeral.decimal digits < UInt32.size) ∧
        ∀ e, lex .check line = .error e →
          (lex .wrap line = .error e ∧
              (∃ c, e.reason = .invalidSymbol c) ∧
              ∀ before digits after,
                Glyph.IsRun gs before digits after →
                  UInt32.size ≤ Numeral.decimal digits →
                  e.offset < Glyph.width before) ∨
            (∃ before first more after,
              Glyph.IsRun gs before (first :: more) after ∧
                UInt32.size ≤ Numeral.decimal (first :: more) ∧
                (∀ before' digits after',
                  Glyph.IsRun gs before' digits after' →
                    UInt32.size ≤ Numeral.decimal digits →
                    Glyph.width before ≤
                      Glyph.width before') ∧
                (∀ e', lex .wrap line = .error e' →
                  Glyph.width before < e'.offset) ∧
                e.offset = Glyph.width before ∧
                e.char = first.toNat ∧
                e.reason.message =
                  "number literal \"" ++
                    String.ofList (first :: more) ++
                    "\" overflows 32 bits") := by
  simp only [Lexeme.lex_eq_tokens]
  refine ⟨line.glyphs, fun gs' => Text.decodes_iff, ?_, ?_⟩
  · intro ts
    rw [Lexeme.tokens_check_eq_ok_iff]
    exact and_congr_right fun _ =>
      Glyph.forall_not_isWide_iff
  · intro e hTokens
    rcases Lexeme.tokens_check_error_cases hTokens with
      ⟨hWrap, hLater⟩ |
        ⟨ls, first, more, ms, hLexemes, hWide, hFirst,
          hLater, rfl⟩
    · left
      refine ⟨hWrap, ?_, ?_⟩
      · rcases Lexeme.exists_of_tokens_eq_error
            (by decide) hWrap with
          ⟨_, g, _, _, _, _, rfl⟩
        exact ⟨g.toChar, rfl⟩
      · intro before digits after hRun hWide
        rcases hRun.exists_lexeme with
          ⟨first, more, rfl, hLexemes⟩
        have hOffset := hLater _ _ _ hLexemes hWide
        rwa [Nat.zero_add, Lexeme.span_ofGlyphs] at hOffset
    · right
      rcases Glyph.exists_isRun hLexemes with
        ⟨before, after, hRun, hWidth⟩
      rw [← hWidth] at hFirst hLater ⊢
      rw [Nat.zero_add] at hLater ⊢
      refine ⟨before, first, more, after, hRun, hWide, ?_,
        hLater, rfl, rfl,
        LexReason.message_overflow hRun.isDigit⟩
      intro before' digits after' hRun' hWide'
      rcases hRun'.exists_lexeme with
        ⟨first', more', rfl, hLexemes'⟩
      have hSpan := hFirst _ _ _ hLexemes' hWide'
      rwa [Lexeme.span_ofGlyphs] at hSpan

/- The zeros in front and the digits behind are quoted. -/
example :
    lex .check (Text.ofString "7*00429496729600$") =
      .error ⟨2, 0x30,
        .overflow "00429496729600".toList⟩ := by
  decide +kernel

end ExprCompiler
