import ExprCompiler.Proofs.Diagnostics

/-
  The column at which the caret of a report stands.

  Key definitions include:
    * `Failure.IsAbout`
    * `Failure.HasCaretAt`

  Main declarations:
    * `Glyph.width_eq_length_iff`
    * `Failure.hasCaretAt_iff`
    * `exists_place_of_compile_eq_error`
    * `caret_under_character_iff`

  The caret stands behind as many spaces as there are bytes
  in front of the place of an error. Of all the characters
  that can be there only some white space has more than one
  byte, and behind that the caret stands too far right.
-/

------------------------------------------------------------
-- Bytes and Characters
------------------------------------------------------------

namespace ExprCompiler

namespace Glyph

/- Of lexical glyphs only white space is of many bytes. -/
theorem size_of_isLexical
    {g : Glyph}
    (hLexical : g.IsLexical)
    (hSpace : g.isSpace = false) :
    g.size = 1 := by
  cases g with
  | stray b => rfl
  | char c =>
      rcases hLexical with hBlank | hDigit | hSymbol
      · rw [hSpace] at hBlank
        cases hBlank
      · exact size_char_of_isDigit hDigit
      · rcases TokenKind.exists_ofSymbol?_iff.mpr hSymbol
          with ⟨kind, hKind⟩
        exact (TokenKind.char_of_symbol?
          (TokenKind.symbol?_of_ofSymbol? hKind)).2.2

theorem length_le_width
    (gs : List Glyph) :
    gs.length ≤ width gs := by
  induction gs with
  | nil => exact Nat.le_refl 0
  | cons g gs ih =>
      have hPos := g.size_pos
      rw [List.length_cons, width]
      omega

/- There are as many bytes as glyphs if each has one. -/
theorem width_eq_length_iff
    {gs : List Glyph} :
    width gs = gs.length ↔ ∀ g ∈ gs, g.size = 1 := by
  induction gs with
  | nil => simp [width]
  | cons g gs ih =>
      have hPos := g.size_pos
      have hLe := length_le_width gs
      rw [List.forall_mem_cons, ← ih, width,
        List.length_cons]
      omega

theorem width_eq_length_iff_of_isLexical
    {gs : List Glyph}
    (hLexical : ∀ g ∈ gs, g.IsLexical) :
    width gs = gs.length ↔
      ∀ g ∈ gs, g.isSpace = true → g.size = 1 := by
  rw [width_eq_length_iff]
  constructor
  · intro hSize g hMem _
    exact hSize g hMem
  · intro hSpaces g hMem
    cases hSpace : g.isSpace with
    | true => exact hSpaces g hMem hSpace
    | false =>
        exact size_of_isLexical (hLexical g hMem) hSpace

end Glyph

------------------------------------------------------------
-- Carets
------------------------------------------------------------

namespace Failure

/-
  A failure is reported at the first of the glyphs that are
  left of a line: at a character that is in no token, or at
  the first character of a token that does not fit. None is
  left where the line ends too early.
-/
inductive IsAbout
    (f : Failure) :
    List Glyph → Prop
  | character
      {e : LexError}
      {g : Glyph}
      {after : List Glyph}
      (hCause : f.cause = .lex e)
      (hChar : e.char = g.toChar.toNat) :
      IsAbout f (g :: after)
  | token
      {e : ParseError}
      {text : String}
      {g : Glyph}
      {after : List Glyph}
      (hCause : f.cause = .parse e)
      (hFound : e.found = some text)
      (hText :
        text = String.singleton g.toChar ∨
          g.isDigit = true) :
      IsAbout f (g :: after)
  | ending
      {e : ParseError}
      (hCause : f.cause = .parse e)
      (hFound : e.found = none) :
      IsAbout f []

/- The caret under the line stands behind so many spaces. -/
def HasCaretAt
    (f : Failure)
    (line : Text)
    (column : Nat) :
    Prop :=
  ∃ rest,
    f.report? line =
      some (line ++ Text.newline ++
        (List.replicate column 0x20 ++
          (Text.ofString "^\n" ++ rest)))

end Failure

theorem Text.length_of_caret
    {m n : Nat}
    {rest rest' : Text}
    (hSame :
      List.replicate m 0x20 ++ (ofString "^\n" ++ rest) =
        List.replicate n 0x20 ++
          (ofString "^\n" ++ rest')) :
    m = n := by
  induction m generalizing n with
  | zero =>
      cases n with
      | zero => rfl
      | succ n => cases hSame
  | succ m ih =>
      cases n with
      | zero => cases hSame
      | succ n =>
          rw [List.replicate_succ, List.replicate_succ,
            List.cons_append, List.cons_append,
            List.cons.injEq] at hSame
          rw [ih hSame.2]

/- The caret stands at the offset and nowhere else. -/
theorem Failure.hasCaretAt_iff
    {line : Text}
    {f : Failure}
    {d : Diagnostic}
    {n : Nat}
    (hDiagnostic : f.diagnostic? line = some d)
    (hLine : d.line = line)
    (hOffset : d.offset = n)
    {column : Nat} :
    f.HasCaretAt line column ↔ column = n := by
  have hReport :
      f.report? line =
        some (line ++ Text.newline ++
          (List.replicate n 0x20 ++
            (Text.ofString "^\n" ++
              (Text.ofString d.message ++
                Text.newline)))) := by
    rw [report?, hDiagnostic]
    simp [Diagnostic.report?, hLine, hOffset]
  constructor
  · rintro ⟨rest, hShown⟩
    rw [hReport, Option.some.injEq] at hShown
    exact (Text.length_of_caret
      (List.append_cancel_left hShown)).symm
  · rintro rfl
    exact ⟨_, hReport⟩

------------------------------------------------------------
-- Places of Failures
------------------------------------------------------------

/- A token of a kind with a symbol is written as that. -/
theorem Token.text_ofKind
    {kind : TokenKind}
    {c : Char}
    (hSymbol : kind.symbol? = some c) :
    (ofKind kind).text = String.singleton c := by
  cases kind
  all_goals cases hSymbol
  all_goals rfl

/- A token begins at a glyph, which is one of its own. -/
theorem exists_glyph_of_mem_lex
    {policy : OverflowPolicy}
    {line : Text}
    {ts : List PlacedToken}
    {t : PlacedToken}
    (hLex : lex policy line = .ok ts)
    (hMem : t ∈ ts) :
    ∃ before g after,
      line.glyphs = before ++ g :: after ∧
        t.offset = Glyph.width before ∧
        (t.token.text = String.singleton g.toChar ∨
          g.isDigit = true) := by
  rw [Lexeme.lex_eq_tokens] at hLex
  rcases (Lexeme.mem_tokens_iff hLex).mp hMem with
    ⟨ls, l, ms, hLexemes, hToken⟩
  rcases Lexeme.ofGlyphs_eq_append_cons_iff.mp
      hLexemes with
    ⟨before, after, hGlyphs, hProper, _, _, rfl, _⟩
  have hOffset := Lexeme.offset_of_token? hToken
  rw [Nat.zero_add, Lexeme.span_ofGlyphs] at hOffset
  cases l with
  | digits first more =>
      exact ⟨before, .char first,
        more.map Glyph.char ++ after, hGlyphs, hOffset,
        .inr (hProper first List.mem_cons_self)⟩
  | glyph g =>
      rcases Lexeme.token?_glyph_eq_some_iff.mp hToken with
        ⟨kind, hSymbol, rfl⟩
      exact ⟨before, g, after, hGlyphs, hOffset,
        .inl (Token.text_ofKind hSymbol)⟩

/-
  The glyphs of a line that fails to compile can be parted
  at the place of the failure, and all in front of it have
  been passed by the lexer.
-/
theorem exists_place_of_compile_eq_error
    {policy : OverflowPolicy}
    {line : Text}
    {f : Failure}
    (hCompile : (compile policy line).1 = .error f) :
    ∃ before after d,
      line.glyphs = before ++ after ∧
        (∀ g ∈ before, g.IsLexical) ∧ f.IsAbout after ∧
        f.diagnostic? line = some d ∧ d.line = line ∧
        d.offset = Glyph.width before := by
  rcases compile_eq_error_iff.mp hCompile with
    ⟨e, hLex, rfl⟩ | ⟨ts, e, hLex, hParse, rfl⟩
  · rcases exists_glyph_of_lex_eq_error hLex with
      ⟨before, g, after, hGlyphs, hLexical, hOffset, hChar⟩
    exact ⟨before, g :: after, _, hGlyphs, hLexical,
      .character rfl hChar, rfl, rfl, hOffset⟩
  · have hLexical : ∀ g ∈ line.glyphs, g.IsLexical := by
      intro g hMem
      rw [Lexeme.lex_eq_tokens] at hLex
      exact Lexeme.isLexical_of_tokens hLex hMem
    rcases Expr.exists_rest_of_parse_eq_error hParse with
      ⟨us, rest, expected, rfl, rfl⟩
    cases rest with
    | nil =>
        refine ⟨line.glyphs, [], _,
          (List.append_nil _).symm, hLexical,
          .ending rfl rfl, rfl, rfl, ?_⟩
        rw [Text.width_glyphs]
        rfl
    | cons t rest =>
        have hMem : t ∈ us ++ t :: rest :=
          List.mem_append_right us List.mem_cons_self
        rcases exists_glyph_of_mem_lex hLex hMem with
          ⟨before, g, after, hGlyphs, hOffset, hText⟩
        refine ⟨before, g :: after, _, hGlyphs, ?_,
          .token rfl rfl hText, rfl, rfl, hOffset⟩
        intro g' hMem
        apply hLexical
        rw [hGlyphs]
        exact List.mem_append_left _ hMem

------------------------------------------------------------
-- Columns
------------------------------------------------------------

/-
  The caret of a line that fails to compile stands behind as
  many spaces as there are bytes in front of the character
  that the failure is about, or in the line if it ends too
  early. So it stands under that character if and only if
  all white space in front of it has one byte.
-/
theorem caret_under_character_iff
    {policy : OverflowPolicy}
    {line : Text}
    {f : Failure}
    (hCompile : (compile policy line).1 = .error f) :
    ∃ before after d,
      line.glyphs = before ++ after ∧ f.IsAbout after ∧
        f.diagnostic? line = some d ∧
        d.offset = Glyph.width before ∧
        (∀ column, f.HasCaretAt line column ↔
          column = Glyph.width before) ∧
        (f.HasCaretAt line before.length ↔
          ∀ g ∈ before, g.isSpace = true → g.size = 1) := by
  rcases exists_place_of_compile_eq_error hCompile with
    ⟨before, after, d, hGlyphs, hLexical, hAbout,
      hDiagnostic, hLine, hOffset⟩
  refine ⟨before, after, d, hGlyphs, hAbout, hDiagnostic,
    hOffset, ?_, ?_⟩
  · intro column
    exact Failure.hasCaretAt_iff hDiagnostic hLine hOffset
  · rw [Failure.hasCaretAt_iff hDiagnostic hLine hOffset,
      eq_comm]
    exact Glyph.width_eq_length_iff_of_isLexical hLexical

/- The caret stands under a stray byte behind a tab. -/
theorem caret_under_stray_byte :
    let line := Text.ofString "1+\t" ++ [0xFF]
    let f : Failure :=
      ⟨.lex ⟨3, 0xFFFD, .invalidSymbol '\uFFFD'⟩,
        [.stage .lex]⟩
    (compile .check line).1 = .error f ∧
      ∃ before after,
        line.glyphs = before ++ after ∧ f.IsAbout after ∧
          f.HasCaretAt line before.length := by
  intro line f
  have hCompile : (compile .check line).1 = .error f := by
    decide +kernel
  have hSpaces :
      ∀ g ∈ line.glyphs, g.isSpace = true → g.size = 1 := by
    decide +kernel
  rcases caret_under_character_iff hCompile with
    ⟨before, after, _, hGlyphs, hAbout, _, _, _, hUnder⟩
  refine ⟨hCompile, before, after, hGlyphs, hAbout, ?_⟩
  refine hUnder.mpr fun g hMem => hSpaces g ?_
  rw [hGlyphs]
  exact List.mem_append_left _ hMem

/-
  The character behind a no-break space has one character in
  front of it, but the caret stands behind two spaces.
-/
theorem caret_beyond_character_of_wide_space :
    let before : List Glyph := [.char '\u00a0']
    let after : List Glyph := [.char ';']
    let line := Text.ofString "\u00a0;"
    let f : Failure :=
      ⟨.lex ⟨2, ';'.toNat, .invalidSymbol ';'⟩,
        [.stage .lex]⟩
    (compile .wrap line).1 = .error f ∧
      line.glyphs = before ++ after ∧ f.IsAbout after ∧
      f.HasCaretAt line 2 ∧
      ¬ f.HasCaretAt line before.length := by
  intro before after line f
  have hDiagnostic :
      f.diagnostic? line =
        some ⟨(LexReason.invalidSymbol ';').message, line,
          2⟩ :=
    rfl
  have hCaret :
      ∀ column, f.HasCaretAt line column ↔ column = 2 :=
    fun _ => Failure.hasCaretAt_iff hDiagnostic rfl rfl
  refine ⟨by decide +kernel, by decide +kernel,
    .character rfl rfl, (hCaret 2).mpr rfl, ?_⟩
  rw [hCaret]
  decide

end ExprCompiler
