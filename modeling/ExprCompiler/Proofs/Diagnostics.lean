import ExprCompiler.Diagnostic
import ExprCompiler.Proofs.Compiling
import ExprCompiler.Proofs.Lexing
import ExprCompiler.Proofs.ViablePrefixes

/-
  The place in a line at which it fails to compile.

  Main declarations:
    * `exists_glyph_of_lex_eq_error`
    * `lex_error_place`
    * `parse_error_place`
    * `compile_error_has_place`

  An error of lexing is at a character of the line, and an
  error of parsing is at a token or at the end of the line.
  So there is always a place for the caret.
-/

------------------------------------------------------------
-- Errors of Lexing
------------------------------------------------------------

namespace ExprCompiler

/-
  An error of lexing is about one glyph of the line, and the
  glyphs in front of it are those of tokens or white space.
-/
theorem exists_glyph_of_lex_eq_error
    {policy : OverflowPolicy}
    {line : Text}
    {e : LexError}
    (hLex : lex policy line = .error e) :
    ∃ before g after,
      line.glyphs = before ++ g :: after ∧
        (∀ g' ∈ before, g'.IsLexical) ∧
        e.offset = Glyph.width before ∧
        e.char = g.toChar.toNat := by
  rw [Lexeme.lex_eq_tokens] at hLex
  rcases Lexeme.exists_split_of_tokens_eq_error hLex with
    ⟨ls, l, ms, _, hLexemes, hBefore, hToken⟩
  rcases Lexeme.ofGlyphs_eq_append_cons_iff.mp
      hLexemes with
    ⟨before, after, hGlyphs, _, _, _, rfl, _⟩
  rcases Lexeme.place_of_token?_eq_error hToken with
    ⟨hOffset, g, gs, hOwn, hChar⟩
  rw [Nat.zero_add, Lexeme.span_ofGlyphs] at hOffset
  rw [hOwn] at hGlyphs
  exact ⟨before, g, gs ++ after, hGlyphs,
    fun g' hMem => Lexeme.isLexical_of_tokens hBefore hMem,
    hOffset, hChar⟩

/- The character of an error is the one at its offset. -/
theorem lex_error_place
    {policy : OverflowPolicy}
    {line : Text}
    {e : LexError}
    (hLex : lex policy line = .error e) :
    0 ≤ e.offset ∧ e.offset < line.length ∧
      ∃ g gs,
        Text.Decodes (line.drop e.offset.toNat) (g :: gs) ∧
          e.char = g.toChar.toNat := by
  rcases exists_glyph_of_lex_eq_error hLex with
    ⟨before, g, after, hGlyphs, _, hOffset, hChar⟩
  have hDecodes : line.Decodes (before ++ g :: after) :=
    hGlyphs ▸ Text.decodes_glyphs line
  have hLength : Glyph.width before < line.length := by
    have hPos := g.size_pos
    rw [← Text.width_glyphs line, hGlyphs,
      Glyph.width_append, Glyph.width]
    omega
  rw [hOffset]
  exact ⟨by omega, by omega, g, after, hDecodes.drop, hChar⟩

------------------------------------------------------------
-- Errors of Parsing
------------------------------------------------------------

/-
  An error of parsing is at the end of the line if and only
  if nothing was found, and else at the token found there.
-/
theorem parse_error_place
    {policy : OverflowPolicy}
    {line : Text}
    {ts : List PlacedToken}
    {e : ParseError}
    (hLex : lex policy line = .ok ts)
    (hParse : Expr.parse line.length ts = .error e) :
    0 ≤ e.offset ∧ e.offset ≤ line.length ∧
      (e.offset = line.length ↔ e.found = none) ∧
      ∀ text, e.found = some text →
        text ≠ "" ∧
          ∃ t ∈ ts, t.offset = e.offset ∧
            t.token.text = text := by
  rcases Expr.exists_rest_of_parse_eq_error hParse with
    ⟨us, rest, expected, rfl, rfl⟩
  cases rest with
  | nil =>
      simp [ParseError.ofFound]
  | cons t rest =>
      have hMem : t ∈ us ++ t :: rest := by
        simp
      rw [Lexeme.lex_eq_tokens] at hLex
      have hBounds := Lexeme.offset_mem_bounds hLex hMem
      rw [Text.lexemes, Lexeme.span_ofGlyphs,
        Text.width_glyphs, Nat.zero_add] at hBounds
      refine ⟨hBounds.1, Int.le_of_lt hBounds.2, ?_, ?_⟩
      · have hLess : t.offset ≠ line.length :=
          Int.ne_of_lt hBounds.2
        simpa [ParseError.ofFound] using hLess
      · intro text hFound
        cases hFound
        exact ⟨t.token.text_ne_empty, t, hMem, rfl, rfl⟩

------------------------------------------------------------
-- Failures in Contexts
------------------------------------------------------------

namespace Failure

/- Contexts around a failure do not change its cause. -/
theorem cause_foldr_within
    (layers : List Context)
    (f : Failure) :
    (layers.foldr within f).cause = f.cause := by
  induction layers with
  | nil => rfl
  | cons context layers ih => exact ih

/- A failure can be shown if it is not before its line. -/
theorem exists_report_of_diagnostic
    {line : Text}
    {f : Failure}
    {d : Diagnostic}
    (hDiagnostic : f.diagnostic? line = some d)
    (hOffset : 0 ≤ d.offset) :
    ∃ report, f.report? line = some report := by
  rw [report?, hDiagnostic]
  simp only [Diagnostic.report?]
  rw [if_neg (Int.not_lt.mpr hOffset)]
  exact ⟨_, rfl⟩

end Failure

------------------------------------------------------------
-- Failures of Compilation
------------------------------------------------------------

/-
  In whatever contexts, a line that fails to compile has a
  diagnostic within the line: at the character that is no
  token's, at the token that does not fit, or at the end of
  the line if it ends too early. So it can be shown.
-/
theorem compile_error_has_place
    {policy : OverflowPolicy}
    {line : Text}
    {f : Failure}
    (hCompile : (compile policy line).1 = .error f)
    (layers : List Context) :
    let wrapped := layers.foldr Failure.within f
    ∃ d,
      wrapped.diagnostic? line = some d ∧ d.line = line ∧
        0 ≤ d.offset ∧ d.offset ≤ line.length ∧
        ((∃ e g gs,
            wrapped.cause = .lex e ∧ d.offset = e.offset ∧
              d.offset < line.length ∧
              Text.Decodes (line.drop d.offset.toNat)
                (g :: gs) ∧
              e.char = g.toChar.toNat) ∨
          (∃ e ts,
            wrapped.cause = .parse e ∧ d.offset = e.offset ∧
              lex policy line = .ok ts ∧
              (d.offset = line.length ↔ e.found = none) ∧
              ∀ text, e.found = some text →
                text ≠ "" ∧
                  ∃ t ∈ ts, t.offset = d.offset ∧
                    t.token.text = text)) ∧
        ∃ report, wrapped.report? line = some report := by
  intro wrapped
  have hCause : wrapped.cause = f.cause :=
    Failure.cause_foldr_within layers f
  rcases compile_eq_error_iff.mp hCompile with
    ⟨e, hLex, rfl⟩ | ⟨ts, e, hLex, hParse, rfl⟩
  · have hDiagnostic :
        wrapped.diagnostic? line =
          some ⟨e.reason.message, line, e.offset⟩ := by
      rw [Failure.diagnostic?, hCause]
    rcases lex_error_place hLex with
      ⟨hFrom, hTo, g, gs, hDecodes, hChar⟩
    exact ⟨_, hDiagnostic, rfl, hFrom, Int.le_of_lt hTo,
      .inl ⟨e, g, gs, hCause, rfl, hTo, hDecodes, hChar⟩,
      Failure.exists_report_of_diagnostic hDiagnostic hFrom⟩
  · have hDiagnostic :
        wrapped.diagnostic? line =
          some ⟨e.reason, line, e.offset⟩ := by
      rw [Failure.diagnostic?, hCause]
    rcases parse_error_place hLex hParse with
      ⟨hFrom, hTo, hEnd, hFound⟩
    exact ⟨_, hDiagnostic, rfl, hFrom, hTo,
      .inr ⟨e, ts, hCause, rfl, hLex, hEnd, hFound⟩,
      Failure.exists_report_of_diagnostic hDiagnostic hFrom⟩

/-
  The stray byte behind a wide space, which has three bytes,
  is shown at the sixth byte, within two more contexts.
-/
theorem compile_error_at_stray_byte :
    let line := Text.ofString "2*\u3000" ++ [0xFF]
    let f : Failure :=
      ⟨.lex ⟨5, 0xFFFD, .invalidSymbol '\uFFFD'⟩,
        [.stage .lex]⟩
    let layers : List Context :=
      [.described "input", .described "line 1"]
    (compile .check line).1 = .error f ∧
      ∃ d,
        (layers.foldr Failure.within f).diagnostic? line =
            some d ∧
          d.offset < line.length ∧
          ∃ g gs,
            Text.Decodes (line.drop d.offset.toNat)
                (g :: gs) ∧
              g.toChar.toNat = 0xFFFD := by
  intro line f layers
  have hCompile : (compile .check line).1 = .error f := by
    decide +kernel
  rcases compile_error_has_place hCompile layers with
    ⟨d, hDiagnostic, _, _, _, hPlace, _⟩
  refine ⟨hCompile, d, hDiagnostic, ?_⟩
  rcases hPlace with
    ⟨e, g, gs, hCause, _, hLess, hDecodes, hChar⟩ |
      ⟨e, ts, hCause, _⟩
  · cases hCause
    exact ⟨hLess, g, gs, hDecodes,
      Int.ofNat_inj.mp hChar.symm⟩
  · cases hCause

end ExprCompiler
