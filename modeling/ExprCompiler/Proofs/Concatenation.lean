import ExprCompiler.Proofs.Lexing

/-
  Texts that are read one after the other.

  Key definitions include:
    * `PlacedToken.relocate`
    * `LexError.relocate`
    * `Text.Seam`

  Main declarations:
    * `Text.glyphs_append`
    * `Text.seam_of_bytes`
    * `Text.seam_char_left`
    * `Text.seam_char_right`
    * `Lexeme.tokens_add`
    * `lex_append`
    * `lex_distributes_over_append`

  A text can be cut into two texts that are lexed on their
  own, unless the cut goes through a character or through a
  run of digits. What is found in the second text is moved
  by the length of the first.
-/

------------------------------------------------------------
-- Other Offsets
------------------------------------------------------------

namespace ExprCompiler

/- Changes the offset of a token. -/
def PlacedToken.relocate
    (f : Int → Int)
    (t : PlacedToken) :
    PlacedToken :=
  { t with offset := f t.offset }

/- Changes the offset of an error. -/
def LexError.relocate
    (f : Int → Int)
    (e : LexError) :
    LexError :=
  { e with offset := f e.offset }

/- Changes all offsets of what lexing results in. -/
def relocateLexed
    (f : Int → Int) :
    Except LexError (List PlacedToken) →
      Except LexError (List PlacedToken)
| .ok ts => .ok (ts.map (.relocate f))
| .error e => .error (e.relocate f)

theorem relocateLexed_id
    (result : Except LexError (List PlacedToken)) :
    relocateLexed id result = result := by
  cases result with
  | error e => rfl
  | ok ts => exact congrArg Except.ok (List.map_id ts)

theorem relocateLexed_relocateLexed
    (f g : Int → Int)
    (result : Except LexError (List PlacedToken)) :
    relocateLexed f (relocateLexed g result) =
      relocateLexed (f ∘ g) result := by
  cases result with
  | error e => rfl
  | ok ts =>
      simp only [relocateLexed, List.map_map]
      rfl

/- Results in a row are changed one after the other. -/
theorem relocateLexed_append
    (f : Int → Int)
    (first second : Except LexError (List PlacedToken)) :
    relocateLexed f (do
        let ts ← first
        let us ← second
        return ts ++ us) = do
      let ts ← relocateLexed f first
      let us ← relocateLexed f second
      return ts ++ us := by
  cases first with
  | error e => rfl
  | ok ts =>
      cases second with
      | error e => rfl
      | ok us =>
          simp [relocateLexed, bind, Except.bind, pure,
            Except.pure]

------------------------------------------------------------
-- Cuts Between Characters
------------------------------------------------------------

namespace Glyph

section Encodings

variable {c : Char}

/- Only the first byte of an encoding begins one. -/
theorem exists_cons_of_utf8EncodeChar
    (c : Char) :
    ∃ b tail,
      String.utf8EncodeChar c = b :: tail ∧
        isContinuation b = false ∧
        ∀ y ∈ tail, isContinuation y = true := by
  have hLead :
      ∀ n, (n < 0x80 ∨ 0xC0 ≤ n) → n < 256 →
        isContinuation (UInt8.ofNat n) = false := by
    intro n hRange hLess
    rw [Bool.eq_false_iff, Ne, isContinuation_iff,
      UInt8.toNat_ofNat', Nat.mod_eq_of_lt hLess]
    omega
  have hBound := toNat_char_lt c
  rcases Nat.lt_or_ge c.toNat 0x80 with hOne | hOne
  · exact ⟨_, _, utf8EncodeChar_one hOne,
      hLead _ (.inl hOne) (by omega), by simp⟩
  rcases Nat.lt_or_ge c.toNat 0x800 with hTwo | hTwo
  · exact ⟨_, _, utf8EncodeChar_two hOne hTwo,
      hLead _ (by omega) (by omega),
      fun _ => isContinuation_of_mem_trailing⟩
  rcases Nat.lt_or_ge c.toNat 0x10000 with hThree | hThree
  · exact ⟨_, _, utf8EncodeChar_three hTwo hThree,
      hLead _ (by omega) (by omega),
      fun _ => isContinuation_of_mem_trailing⟩
  · exact ⟨_, _, utf8EncodeChar_four hThree,
      hLead _ (by omega) (by omega),
      fun _ => isContinuation_of_mem_trailing⟩

/-
  An encoding that begins in a text does not go on into what
  follows it, if that begins with no continuation byte.
-/
theorem utf8EncodeChar_prefix_of_append
    {b : UInt8}
    {rest after : Text}
    (hHead : ∀ y ∈ after.head?, isContinuation y = false)
    (hPrefix :
      String.utf8EncodeChar c <+: b :: (rest ++ after)) :
    String.utf8EncodeChar c <+: b :: rest := by
  rcases exists_cons_of_utf8EncodeChar c with
    ⟨lead, tail, hEncode, _, hTail⟩
  rw [hEncode, List.cons_prefix_cons] at hPrefix ⊢
  refine ⟨hPrefix.1, ?_⟩
  rcases List.prefix_or_prefix_of_prefix hPrefix.2
      (List.prefix_append rest after) with
    hInside | ⟨more, rfl⟩
  · exact hInside
  · cases more with
    | nil => simp
    | cons y more =>
        -- The byte behind the text would have to be both.
        rcases (List.prefix_append_right_inj rest).mp
            hPrefix.2 with
          ⟨others, rfl⟩
        have hOpen := hTail y (by simp)
        rw [hHead y rfl] at hOpen
        cases hOpen

end Encodings

end Glyph

namespace Text

section Glyphs

variable {a b : Text}

theorem Decodes.append
    {gs : List Glyph}
    (hDecodes : a.Decodes gs)
    (hHead :
      ∀ y ∈ b.head?, Glyph.isContinuation y = false) :
    (a ++ b).Decodes (gs ++ b.glyphs) := by
  induction hDecodes with
  | nil => exact decodes_glyphs b
  | char c _ ih =>
      rw [List.append_assoc]
      exact .char c ih
  | stray hStray _ ih =>
      refine .stray ?_ ih
      intro c hPrefix
      exact hStray c
        (Glyph.utf8EncodeChar_prefix_of_append hHead
          hPrefix)

/- Texts are decoded one after the other. -/
theorem glyphs_append
    (hHead :
      ∀ y ∈ b.head?, Glyph.isContinuation y = false) :
    (a ++ b).glyphs = a.glyphs ++ b.glyphs :=
  (decodes_iff.mp ((decodes_glyphs a).append hHead)).symm

/- Nothing goes on from one text to the next. -/
structure Seam
    (a b : Text) :
    Prop where
  glyphs : (a ++ b).glyphs = a.glyphs ++ b.glyphs
  digits : Glyph.Seam a.glyphs b.glyphs

/- Whether a byte is an ASCII digit. -/
def isDigit
    (y : UInt8) :
    Bool :=
  0x30 ≤ y && y ≤ 0x39

theorem exists_byte_of_isDigit
    {g : Glyph}
    (hDigit : g.isDigit = true) :
    ∃ y, g.bytes = [y] ∧ isDigit y = true := by
  cases g with
  | stray y => cases hDigit
  | char c =>
      have hRange : 0x30 ≤ c.toNat ∧ c.toNat ≤ 0x39 := by
        simpa [Glyph.isDigit, Glyph.toChar, Char.isDigit,
          UInt32.le_iff_toNat_le] using hDigit
      refine ⟨UInt8.ofNat c.toNat,
        Glyph.utf8EncodeChar_one (by omega), ?_⟩
      simp only [isDigit, UInt8.le_iff_toNat_le,
        UInt8.toNat_ofNat', UInt8.reduceToNat,
        Bool.and_eq_true, decide_eq_true_eq]
      omega

/-
  A text can be cut where no continuation byte follows and
  where no digit stands on both sides.
-/
theorem seam_of_bytes
    (hHead :
      ∀ y ∈ b.head?, Glyph.isContinuation y = false)
    (hDigits :
      ∀ x ∈ a.getLast?, ∀ y ∈ b.head?,
        ¬ (isDigit x = true ∧ isDigit y = true)) :
    Seam a b := by
  refine ⟨glyphs_append hHead, ?_⟩
  rintro g hLast h hFirst ⟨hBefore, hAfter⟩
  rcases exists_byte_of_isDigit hBefore with
    ⟨x, hByte, hDigit⟩
  rcases exists_byte_of_isDigit hAfter with
    ⟨y, hByte', hDigit'⟩
  rcases List.getLast?_eq_some_iff.mp hLast with
    ⟨gs, hGlyphs⟩
  rcases List.head?_eq_some_iff.mp hFirst with
    ⟨hs, hGlyphs'⟩
  have hText : a = gs.flatMap Glyph.bytes ++ [x] := by
    rw [← flatMap_bytes_glyphs a, hGlyphs]
    simp [hByte]
  have hText' : b = y :: hs.flatMap Glyph.bytes := by
    rw [← flatMap_bytes_glyphs b, hGlyphs']
    simp [hByte']
  exact hDigits x (by simp [hText]) y (by simp [hText'])
    ⟨hDigit, hDigit'⟩

section Characters

variable {c : Char}

theorem glyphs_char
    (c : Char) :
    glyphs (String.utf8EncodeChar c) = [.char c] := by
  simpa [glyphs_nil] using glyphs_char_append c []

/- A text can be cut behind a character that is no digit. -/
theorem seam_char_left
    (hDigit : c.isDigit = false)
    (b : Text) :
    Seam (String.utf8EncodeChar c) b := by
  constructor
  · rw [glyphs_char_append, glyphs_char,
      List.singleton_append]
  · rw [glyphs_char]
    exact Glyph.seam_singleton_of_isDigit_eq_false
      (g := .char c) hDigit _

/- A text can be cut before a character that is no digit. -/
theorem seam_char_right
    (hDigit : c.isDigit = false)
    (a b : Text) :
    Seam a (String.utf8EncodeChar c ++ b) := by
  constructor
  · apply glyphs_append
    rcases Glyph.exists_cons_of_utf8EncodeChar c with
      ⟨lead, tail, hEncode, hLead, _⟩
    rw [hEncode]
    rintro y hHead
    cases hHead
    exact hLead
  · rw [glyphs_char_append]
    exact Glyph.seam_cons_of_isDigit_eq_false
      (g := .char c) hDigit _ _

end Characters

end Glyphs

end Text

------------------------------------------------------------
-- Tokens of Lexemes Further On
------------------------------------------------------------

namespace Lexeme

theorem token?_add
    (policy : OverflowPolicy)
    (n offset : Nat)
    (l : Lexeme) :
    l.token? policy (offset + n) =
      ((l.token? policy offset).map
        (Option.map (.relocate (· + n)))).mapError
          (.relocate (· + n)) := by
  cases l with
  | digits first more =>
      simp only [token?]
      cases Numeral.read policy 0 (first :: more) <;> rfl
  | glyph g =>
      simp only [token?]
      split
      · rfl
      · cases TokenKind.ofSymbol? g.toChar <;> rfl

/- Lexemes further on have their tokens further on. -/
theorem tokens_add
    (policy : OverflowPolicy)
    (n offset : Nat)
    (ls : List Lexeme) :
    tokens policy (offset + n) ls =
      relocateLexed (· + n) (tokens policy offset ls) := by
  induction ls generalizing offset with
  | nil => rfl
  | cons l ls ih =>
      rw [tokens, tokens, token?_add,
        Nat.add_right_comm offset n l.size, ih]
      cases l.token? policy offset with
      | error e => rfl
      | ok t =>
          cases tokens policy (offset + l.size) ls with
          | error e => rfl
          | ok ts =>
              cases t <;> rfl

end Lexeme

------------------------------------------------------------
-- Tokens of Texts in a Row
------------------------------------------------------------

theorem Text.span_lexemes
    (t : Text) :
    Lexeme.span t.lexemes = t.length := by
  rw [lexemes, Lexeme.span_ofGlyphs, width_glyphs]

/- Texts that meet at a seam are lexed one after the other. -/
theorem lex_append
    (policy : OverflowPolicy)
    {a b : Text}
    (hSeam : a.Seam b) :
    lex policy (a ++ b) = do
      let ts ← lex policy a
      let us ← relocateLexed (· + a.length) (lex policy b)
      return ts ++ us := by
  have hLexemes :
      (a ++ b).lexemes = a.lexemes ++ b.lexemes := by
    rw [Text.lexemes, hSeam.glyphs,
      Lexeme.ofGlyphs_append hSeam.digits]
    rfl
  simp only [Lexeme.lex_eq_tokens]
  rw [hLexemes, Lexeme.tokens_append, Text.span_lexemes,
    Lexeme.tokens_add]

theorem lex_append_eq_ok
    {policy : OverflowPolicy}
    {a b : Text}
    {ts us : List PlacedToken}
    (hSeam : a.Seam b)
    (hFirst : lex policy a = .ok ts)
    (hSecond : lex policy b = .ok us) :
    lex policy (a ++ b) =
      .ok (ts ++ us.map (.relocate (· + a.length))) := by
  rw [lex_append policy hSeam, hFirst, hSecond]
  rfl

/-
  Lexing distributes over cuts that go through no character
  and no number. The first text that fails gives the error,
  and without one the tokens of both come in order. Offsets
  in the second text are moved by the length of the first.
-/
theorem lex_distributes_over_append
    (policy : OverflowPolicy)
    {a b : Text}
    (hHead :
      ∀ y ∈ b.head?, Glyph.isContinuation y = false)
    (hDigits :
      ∀ x ∈ a.getLast?, ∀ y ∈ b.head?,
        ¬ (Text.isDigit x = true ∧ Text.isDigit y = true)) :
    (∀ e, lex policy a = .error e →
        lex policy (a ++ b) = .error e) ∧
      (∀ ts e, lex policy a = .ok ts →
        lex policy b = .error e →
          lex policy (a ++ b) =
            .error
              { e with offset := e.offset + a.length }) ∧
      ∀ ts us, lex policy a = .ok ts →
        lex policy b = .ok us →
          lex policy (a ++ b) =
            .ok (ts ++ us.map fun t =>
              { t with offset := t.offset + a.length }) := by
  have hSeam : a.Seam b := Text.seam_of_bytes hHead hDigits
  refine ⟨?_, ?_, ?_⟩
  · intro e hFirst
    rw [lex_append policy hSeam, hFirst]
    rfl
  · intro ts e hFirst hSecond
    rw [lex_append policy hSeam, hFirst, hSecond]
    rfl
  · intro ts us hFirst hSecond
    exact lex_append_eq_ok hSeam hFirst hSecond

/-
  Behind `6 +` the number 2 ^ 32 + 3 is an error at its first
  digit, or it counts as three. Behind a wide space without
  its last byte it is not reached.
-/
theorem lex_distributes_over_wide_number :
    let sum := Text.ofString "6 +"
    let cut : Text := [0xE3, 0x80]
    let wide := Text.ofString "4294967299)"
    lex .check wide =
        .error ⟨0, 0x34, .overflow "4294967299".toList⟩ ∧
      lex .check (sum ++ wide) =
        .error ⟨3, 0x34, .overflow "4294967299".toList⟩ ∧
      lex .wrap (sum ++ wide) =
        .ok [⟨0, .ofNumber 6⟩, ⟨2, .ofKind .plus⟩,
          ⟨3, .ofNumber 3⟩, ⟨13, .ofKind .closeParen⟩] ∧
      lex .check (cut ++ wide) =
        .error ⟨0, 0xFFFD, .invalidSymbol '\uFFFD'⟩ := by
  intro sum cut wide
  have hWide :
      lex .check wide =
        .error ⟨0, 0x34, .overflow "4294967299".toList⟩ := by
    decide +kernel
  have hHead :
      ∀ y ∈ wide.head?, Glyph.isContinuation y = false := by
    decide +kernel
  have hSum (policy : OverflowPolicy) :=
    lex_distributes_over_append policy
      (a := sum) hHead (by decide +kernel)
  have hCut :=
    lex_distributes_over_append .check
      (a := cut) hHead (by decide +kernel)
  refine ⟨hWide, ?_, ?_, ?_⟩
  · exact (hSum .check).2.1
      [⟨0, .ofNumber 6⟩, ⟨2, .ofKind .plus⟩] _
      (by decide +kernel) hWide
  · exact (hSum .wrap).2.2
      [⟨0, .ofNumber 6⟩, ⟨2, .ofKind .plus⟩]
      [⟨0, .ofNumber 3⟩, ⟨10, .ofKind .closeParen⟩]
      (by decide +kernel) (by decide +kernel)
  · exact hCut.1 _ (by decide +kernel)

------------------------------------------------------------
-- Tokens of Single Characters
------------------------------------------------------------

section Characters

variable {c : Char}

theorem Text.lexemes_char
    (hDigit : c.isDigit = false) :
    lexemes (String.utf8EncodeChar c) =
      [.glyph (.char c)] := by
  have hProper : (Lexeme.glyph (.char c)).IsProper := hDigit
  rw [lexemes, glyphs_char]
  exact Lexeme.ofGlyphs_glyphs hProper

/- White space alone has no tokens. -/
theorem lex_space
    (policy : OverflowPolicy)
    (hSpace : CharClass.space.contains c = true) :
    lex policy (String.utf8EncodeChar c) = .ok [] := by
  rw [Lexeme.lex_eq_tokens,
    Text.lexemes_char (Lexeme.char_of_space hSpace).1,
    Lexeme.tokens_cons_eq_ok_iff]
  exact ⟨none, [],
    Lexeme.token?_glyph_eq_none_iff.mpr hSpace, rfl, rfl⟩

/- A symbol alone has its token. -/
theorem lex_symbol
    (policy : OverflowPolicy)
    {kind : TokenKind}
    (hSymbol : kind.symbol? = some c) :
    lex policy (String.utf8EncodeChar c) =
      .ok [⟨0, .ofKind kind⟩] := by
  rw [Lexeme.lex_eq_tokens,
    Text.lexemes_char
      (TokenKind.char_of_symbol? hSymbol).2.1,
    Lexeme.tokens_cons_eq_ok_iff]
  exact ⟨some ⟨0, .ofKind kind⟩, [],
    Lexeme.token?_glyph_eq_some_iff.mpr
      ⟨kind, hSymbol, rfl⟩,
    rfl, rfl⟩

end Characters

------------------------------------------------------------
-- Places of Tokens
------------------------------------------------------------

section Bounds

variable {policy : OverflowPolicy} {line : Text}

theorem offset_bounds_of_lex
    {ts : List PlacedToken}
    {t : PlacedToken}
    (hLex : lex policy line = .ok ts)
    (hMem : t ∈ ts) :
    0 ≤ t.offset ∧ t.offset < line.length := by
  rw [Lexeme.lex_eq_tokens] at hLex
  have hBounds := Lexeme.offset_mem_bounds hLex hMem
  rw [Text.span_lexemes] at hBounds
  omega

theorem offset_bounds_of_lex_eq_error
    {e : LexError}
    (hLex : lex policy line = .error e) :
    0 ≤ e.offset ∧ e.offset < line.length := by
  rw [Lexeme.lex_eq_tokens] at hLex
  have hBounds := Lexeme.error_offset_mem_bounds hLex
  rw [Text.span_lexemes] at hBounds
  omega

/- Only the places within a line matter for its tokens. -/
theorem relocateLexed_congr
    {f g : Int → Int}
    (hSame :
      ∀ n : Int, 0 ≤ n → n < line.length → f n = g n) :
    relocateLexed f (lex policy line) =
      relocateLexed g (lex policy line) := by
  cases hLex : lex policy line with
  | error e =>
      have hBounds := offset_bounds_of_lex_eq_error hLex
      simp only [relocateLexed, LexError.relocate]
      rw [hSame _ hBounds.1 hBounds.2]
  | ok ts =>
      apply congrArg Except.ok
      apply List.map_congr_left
      intro t hMem
      have hBounds := offset_bounds_of_lex hLex hMem
      simp only [PlacedToken.relocate]
      rw [hSame _ hBounds.1 hBounds.2]

end Bounds

end ExprCompiler
