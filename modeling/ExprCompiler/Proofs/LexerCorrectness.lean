import ExprCompiler.Proofs.Lexing

/-
  What the tokens of a line are, unless wide numbers are to
  be refused.

  Key definitions include:
    * `SpelledIn`
    * `IsTokenization`

  Main declarations:
    * `Lexeme.spelledIn_iff`
    * `Lexeme.isTokenization_of_tokens`
    * `lex_partitions_line`

  A line of white space, digits and operators has as tokens
  its operators and its longest runs of digits, and nothing
  but white space is left between them. A number counts
  modulo 2 ^ 32, however many digits it has.
-/

------------------------------------------------------------
-- Tokens in Glyphs
------------------------------------------------------------

namespace ExprCompiler

/-
  A token stands among glyphs, at the offset that it has,
  and takes up a number of bytes.
-/
inductive SpelledIn
    (gs : List Glyph) :
    PlacedToken → Nat → Prop
  | number
      {before after : List Glyph}
      {digits : List Char}
      {v : UInt32}
      (hGlyphs : gs = before ++ (digits.map .char ++ after))
      (hNonempty : digits ≠ [])
      (hDigits : ∀ c ∈ digits, c.isDigit = true)
      (hBefore : Glyph.Seam before (digits.map .char))
      (hAfter : Glyph.Seam (digits.map .char) after)
      (hValue :
        v.toNat = Numeral.decimal digits % UInt32.size) :
      SpelledIn gs ⟨Glyph.width before, .ofNumber v⟩
        digits.length
  | operator
      {before after : List Glyph}
      {c : Char}
      {kind : TokenKind}
      (hGlyphs : gs = before ++ .char c :: after)
      (hSymbol : kind.symbol? = some c) :
      SpelledIn gs ⟨Glyph.width before, .ofKind kind⟩ 1

/-
  Tokens are all those that stand among glyphs, in reading
  order, and every other byte belongs to white space.
-/
structure IsTokenization
    (gs : List Glyph)
    (ts : List PlacedToken) :
    Prop where
  increasing :
    ts.Pairwise fun t u => t.offset < u.offset
  mem_iff :
    ∀ t, t ∈ ts ↔ ∃ size, SpelledIn gs t size
  bounds :
    ∀ t ∈ ts, 0 ≤ t.offset ∧ t.offset < Glyph.width gs
  covered :
    ∀ i < Glyph.width gs,
      (∃ t ∈ ts, ∃ size,
        SpelledIn gs t size ∧ t.offset ≤ i ∧
          i < t.offset + size) ∨
      (∃ before g after,
        gs = before ++ g :: after ∧ g.isSpace = true ∧
          Glyph.width before ≤ i ∧
          i < Glyph.width before + g.size)

namespace Lexeme

open Glyph

section NotChecked

variable {policy : OverflowPolicy}
variable (hPolicy : policy ≠ .check)
variable {gs : List Glyph} {t : PlacedToken}

include hPolicy

theorem token?_digits
    (offset : Nat)
    (first : Char)
    (more : List Char) :
    token? policy offset (.digits first more) =
      .ok (some
        ⟨offset, .ofNumber (UInt32.ofNat
          (Numeral.decimal (first :: more)))⟩) := by
  rcases Numeral.exists_read_eq_value hPolicy 0
      (first :: more) with
    ⟨v, hRead⟩
  have hToken :
      token? policy offset (.digits first more) =
        .ok (some ⟨offset, .ofNumber v⟩) := by
    simp only [token?, hRead]
  rw [hToken, eq_of_token?_digits hToken]

/- What stands among glyphs are the tokens of lexemes. -/
theorem spelledIn_iff
    {size : Nat} :
    SpelledIn gs t size ↔
      ∃ before l after,
        ofGlyphs gs = before ++ l :: after ∧
          l.token? policy (span before) = .ok (some t) ∧
          l.size = size := by
  constructor
  · intro hSpelled
    cases hSpelled with
    | @number before after digits v hGlyphs hNonempty
        hDigits hBefore hAfter hValue =>
        cases digits with
        | nil => exact absurd rfl hNonempty
        | cons first more =>
            have hSplit :
                ofGlyphs gs =
                  ofGlyphs before ++
                    .digits first more :: ofGlyphs after :=
              ofGlyphs_eq_append_cons_iff.mpr
                ⟨before, after, hGlyphs, hDigits, hBefore,
                  hAfter, rfl, rfl⟩
            have hNumber :
                UInt32.ofNat
                    (Numeral.decimal (first :: more)) =
                  v := by
              apply UInt32.toNat_inj.mp
              rw [hValue, UInt32.toNat_ofNat']
            refine ⟨_, _, _, hSplit, ?_, rfl⟩
            rw [token?_digits hPolicy, span_ofGlyphs,
              hNumber]
    | @operator before after c kind hGlyphs hSymbol =>
        rcases TokenKind.char_of_symbol? hSymbol with
          ⟨_, hDigit, hSize⟩
        have hProper : (Glyph.char c).isDigit = false :=
          hDigit
        have hSplit :
            ofGlyphs gs =
              ofGlyphs before ++
                .glyph (.char c) :: ofGlyphs after :=
          ofGlyphs_eq_append_cons_iff.mpr
            ⟨before, after, hGlyphs, hProper,
              seam_cons_of_isDigit_eq_false hProper _ _,
              seam_singleton_of_isDigit_eq_false hProper _,
              rfl, rfl⟩
        refine ⟨_, _, _, hSplit, ?_, hSize⟩
        rw [token?_glyph_eq_some_iff, span_ofGlyphs]
        exact ⟨kind, hSymbol, rfl⟩
  · rintro ⟨ls, l, ms, hSplit, hToken, rfl⟩
    rcases ofGlyphs_eq_append_cons_iff.mp hSplit with
      ⟨before, after, hGlyphs, hProper, hBefore, hAfter,
        rfl, rfl⟩
    rw [span_ofGlyphs] at hToken
    cases l with
    | digits first more =>
        rw [token?_digits hPolicy] at hToken
        cases hToken
        exact .number hGlyphs (List.cons_ne_nil first more)
          hProper hBefore hAfter UInt32.toNat_ofNat'
    | glyph g =>
        rcases token?_glyph_eq_some_iff.mp hToken with
          ⟨kind, hSymbol, rfl⟩
        have hSize :=
          (TokenKind.char_of_symbol? hSymbol).2.2
        cases g with
        | stray b => cases hSize
        | char c =>
            have hOne : size (.glyph (.char c)) = 1 := hSize
            rw [hOne]
            exact .operator hGlyphs hSymbol

theorem mem_tokens_iff_spelledIn
    {ts : List PlacedToken}
    (hTokens : tokens policy 0 (ofGlyphs gs) = .ok ts) :
    t ∈ ts ↔ ∃ size, SpelledIn gs t size := by
  rw [mem_tokens_iff hTokens]
  simp only [spelledIn_iff hPolicy, Nat.zero_add]
  constructor
  · rintro ⟨before, l, after, hSplit, hToken⟩
    exact ⟨l.size, before, l, after, hSplit, hToken, rfl⟩
  · rintro ⟨size, before, l, after, hSplit, hToken, _⟩
    exact ⟨before, l, after, hSplit, hToken⟩

/- A lexeme without a token is white space. -/
theorem isSpace_of_token?_eq_none
    {before after : List Lexeme}
    {l : Lexeme}
    (hSplit : ofGlyphs gs = before ++ l :: after)
    (hToken : l.token? policy (span before) = .ok none) :
    ∃ gs₁ g gs₂,
      gs = gs₁ ++ g :: gs₂ ∧ g.isSpace = true ∧
        width gs₁ = span before ∧ g.size = l.size := by
  rcases ofGlyphs_eq_append_cons_iff.mp hSplit with
    ⟨gs₁, gs₂, hGlyphs, _, _, _, rfl, _⟩
  cases l with
  | digits first more =>
      rw [token?_digits hPolicy] at hToken
      cases hToken
  | glyph g =>
      exact ⟨gs₁, g, gs₂, hGlyphs,
        token?_glyph_eq_none_iff.mp hToken,
        (span_ofGlyphs gs₁).symm, rfl⟩

theorem isTokenization_of_tokens
    {ts : List PlacedToken}
    (hTokens : tokens policy 0 (ofGlyphs gs) = .ok ts) :
    IsTokenization gs ts := by
  refine ⟨pairwise_offset hTokens, fun t => ?_, ?_, ?_⟩
  · exact mem_tokens_iff_spelledIn hPolicy hTokens
  · intro t hMem
    have hBounds := offset_mem_bounds hTokens hMem
    rw [span_ofGlyphs] at hBounds
    omega
  · intro i hLess
    rw [← span_ofGlyphs] at hLess
    rcases exists_split_of_lt_span hLess with
      ⟨before, l, after, hSplit, hFrom, hTo⟩
    have hAll := hTokens
    rw [hSplit] at hAll
    rcases exists_token?_of_tokens_eq_ok hAll with
      ⟨t?, hToken⟩
    rw [Nat.zero_add] at hToken
    cases t? with
    | some t =>
        have hOffset := offset_of_token? hToken
        have hSpelled : SpelledIn gs t l.size :=
          (spelledIn_iff hPolicy).mpr
            ⟨before, l, after, hSplit, hToken, rfl⟩
        have hMem : t ∈ ts :=
          (mem_tokens_iff_spelledIn hPolicy hTokens).mpr
            ⟨l.size, hSpelled⟩
        exact .inl ⟨t, hMem, l.size, hSpelled, by omega,
          by omega⟩
    | none =>
        rcases isSpace_of_token?_eq_none hPolicy hSplit
            hToken with
          ⟨gs₁, g, gs₂, hGlyphs, hSpace, hWidth, hSize⟩
        exact .inr ⟨gs₁, g, gs₂, hGlyphs, hSpace, by omega,
          by omega⟩

/- A line is in error at its first glyph of no class. -/
theorem exists_of_tokens_eq_error
    {e : LexError}
    (hTokens : tokens policy 0 (ofGlyphs gs) = .error e) :
    ∃ before g after,
      gs = before ++ g :: after ∧
        (∀ g' ∈ before, g'.IsLexical) ∧ ¬ g.IsLexical ∧
        e = ⟨width before, g.toChar.toNat,
          .invalidSymbol g.toChar⟩ := by
  rcases exists_split_of_tokens_eq_error hTokens with
    ⟨ls, l, ms, us, hSplit, hBefore, hToken⟩
  rcases ofGlyphs_eq_append_cons_iff.mp hSplit with
    ⟨before, after, hGlyphs, hProper, _, _, rfl, rfl⟩
  rw [Nat.zero_add, span_ofGlyphs] at hToken
  cases l with
  | digits first more =>
      rw [token?_digits hPolicy] at hToken
      cases hToken
  | glyph g =>
      rcases (token?_glyph_eq_error_iff hProper).mp
          hToken with
        ⟨hOther, rfl⟩
      exact ⟨before, g, after, hGlyphs,
        fun g' hMem => isLexical_of_tokens hBefore hMem,
        hOther, rfl⟩

end NotChecked

end Lexeme

------------------------------------------------------------
-- Tokens of Lines
------------------------------------------------------------

/-
  Lexing succeeds exactly on the lines of white space,
  digits and operators, and then finds every token at its
  byte. On other lines it tells the first glyph that is none
  of them.
-/
theorem lex_partitions_line
    {policy : OverflowPolicy}
    (hPolicy : policy ≠ .check)
    (line : Text) :
    ∃ gs,
      (∀ gs', line.Decodes gs' ↔ gs' = gs) ∧
        Glyph.width gs = line.length ∧
        ((∃ ts, lex policy line = .ok ts) ↔
          ∀ g ∈ gs, g.IsLexical) ∧
        (∀ ts, lex policy line = .ok ts →
          IsTokenization gs ts) ∧
        ∀ e, lex policy line = .error e →
          ∃ before g after,
            gs = before ++ g :: after ∧
              (∀ g' ∈ before, g'.IsLexical) ∧
              ¬ g.IsLexical ∧
              e = ⟨Glyph.width before, g.toChar.toNat,
                .invalidSymbol g.toChar⟩ := by
  rw [Lexeme.lex_eq_tokens]
  refine ⟨line.glyphs, fun gs' => Text.decodes_iff,
    Text.width_glyphs line, ⟨?_, ?_⟩, ?_, ?_⟩
  · rintro ⟨ts, hTokens⟩ g hMem
    exact Lexeme.isLexical_of_tokens hTokens hMem
  · intro hLexical
    cases hTokens : Lexeme.tokens policy 0 line.lexemes with
    | ok ts => exact ⟨ts, rfl⟩
    | error e =>
        rcases Lexeme.exists_of_tokens_eq_error hPolicy
            hTokens with
          ⟨before, g, after, hGlyphs, _, hOther, _⟩
        have hMem : g ∈ line.glyphs := by
          simp [hGlyphs]
        exact absurd (hLexical g hMem) hOther
  · intro ts hTokens
    exact Lexeme.isTokenization_of_tokens hPolicy hTokens
  · intro e hTokens
    exact Lexeme.exists_of_tokens_eq_error hPolicy hTokens

/-
  In a line with a no-break space, which has two bytes, the
  number 2 ^ 32 + 4 counts as four.
-/
theorem lex_wide_number :
    let line := Text.ofString "1 +\u00a04294967300"
    OverflowPolicy.wrap ≠ .check ∧
      ∃ gs size,
        line.Decodes gs ∧
          SpelledIn gs ⟨5, .ofNumber 4⟩ size := by
  intro line
  have hPolicy : OverflowPolicy.wrap ≠ .check := by
    decide
  rcases lex_partitions_line hPolicy line with
    ⟨gs, hDecodes, _, _, hTokens, _⟩
  have hLex :
      lex .wrap line =
        .ok [⟨0, .ofNumber 1⟩, ⟨2, .ofKind .plus⟩,
          ⟨5, .ofNumber 4⟩] := by
    decide +kernel
  have hMem :=
    ((hTokens _ hLex).mem_iff ⟨5, .ofNumber 4⟩).mp
      (by simp)
  rcases hMem with ⟨size, hSpelled⟩
  exact ⟨hPolicy, gs, size, (hDecodes gs).mpr rfl,
    hSpelled⟩

end ExprCompiler
