import ExprCompiler.Proofs.Lexemes
import ExprCompiler.Token.Lexer

/-
  The tokens of a line, one lexeme at a time.

  Key definitions include:
    * `Numeral.decimal`
    * `Lexeme.token?`
    * `Lexeme.tokens`
    * `Glyph.IsLexical`

  Main declarations:
    * `Numeral.toNat_extend`
    * `Numeral.read_cons`
    * `Numeral.eq_of_read_eq_value`
    * `Lexeme.lex_eq_tokens`
    * `Lexeme.tokens_append`
    * `Lexeme.mem_tokens_iff`
    * `Lexeme.offset_mem_bounds`
    * `Lexeme.pairwise_offset`
    * `Lexeme.exists_split_of_tokens_eq_error`
    * `Lexeme.isLexical_of_tokens`

  A lexeme has a token of its own, has none or is an error,
  whatever stands around it. So the tokens of a line are
  those of its lexemes in turn, unless one is an error, and
  then the first such lexeme tells what is wrong.
-/

------------------------------------------------------------
-- Numbers
------------------------------------------------------------

namespace ExprCompiler

namespace Numeral

/- The number that digits stand for. -/
def decimal
    (digits : List Char) :
    Nat :=
  Nat.ofDigitChars 10 digits 0

/-
  A digit is added without wrapping: the number before it
  has 32 bits, which leaves room in 64 for ten times as much
  and any character.
-/
theorem toNat_extend
    (v : UInt32)
    (c : Char) :
    (extend v c).toNat = v.toNat * 10 + digitValue c := by
  have hNumber : v.toNat < 2 ^ 32 := v.toNat_lt
  have hChar := Glyph.toNat_char_lt c
  have hDigit : digitValue c ≤ c.toNat := Nat.sub_le _ _
  have hTen : (10 : UInt64).toNat = 10 := rfl
  rw [extend, UInt64.toNat_add, UInt64.toNat_mul,
    UInt32.toNat_toUInt64, UInt64.toNat_ofNat', hTen]
  omega

/- What reading does to a digit, in unbounded numbers. -/
theorem read_cons
    (policy : OverflowPolicy)
    (v : UInt32)
    (c : Char)
    (rest : List Char) :
    read policy v (c :: rest) =
      if policy = .check ∧
          UInt32.size ≤ v.toNat * 10 + digitValue c then
        .overflow rest
      else
        read policy
          (UInt32.ofNat (v.toNat * 10 + digitValue c))
          rest := by
  have hCheck :
      0xFFFFFFFF < extend v c ↔
        UInt32.size ≤ v.toNat * 10 + digitValue c := by
    rw [UInt64.lt_iff_toNat_lt, toNat_extend]
    exact Iff.rfl
  have hCut :
      (extend v c).toUInt32 =
        UInt32.ofNat (v.toNat * 10 + digitValue c) := by
    rw [← toNat_extend, UInt32.ofNat_uInt64ToNat]
  rw [read, hCut]
  simp only [hCheck]

/-
  Digits are folded into a 32-bit number as they are into an
  unbounded one, except that the bits above the 32nd are
  dropped at every digit. None of them comes back.
-/
theorem eq_of_read_eq_value
    {policy : OverflowPolicy}
    {n : Nat}
    {digits : List Char}
    {v : UInt32}
    (hRead :
      read policy (UInt32.ofNat n) digits = .value v) :
    v = UInt32.ofNat (Nat.ofDigitChars 10 digits n) := by
  induction digits generalizing n with
  | nil =>
      cases hRead
      rfl
  | cons c digits ih =>
      have hWide :
          UInt32.ofNat
              ((UInt32.ofNat n).toNat * 10 + digitValue c) =
            UInt32.ofNat (10 * n + digitValue c) := by
        apply UInt32.toNat_inj.mp
        simp only [UInt32.toNat_ofNat']
        omega
      rw [read_cons] at hRead
      split at hRead
      · cases hRead
      · rw [hWide] at hRead
        rw [ih hRead, Nat.ofDigitChars_cons]
        rfl

theorem exists_read_eq_value
    {policy : OverflowPolicy}
    (hPolicy : policy ≠ .check)
    (v : UInt32)
    (digits : List Char) :
    ∃ w, read policy v digits = .value w := by
  induction digits generalizing v with
  | nil => exact ⟨v, rfl⟩
  | cons c digits ih =>
      rw [read_cons, if_neg fun h => hPolicy h.1]
      exact ih _

end Numeral

------------------------------------------------------------
-- Tokens of Lexemes
------------------------------------------------------------

namespace Lexeme

/- The token of a lexeme at an offset, if it has one. -/
def token?
    (policy : OverflowPolicy)
    (offset : Nat) :
    Lexeme → Except LexError (Option PlacedToken)
| .digits first more =>
    match Numeral.read policy 0 (first :: more) with
    | .value v => .ok (some ⟨offset, Token.ofNumber v⟩)
    | .overflow _ =>
        .error ⟨offset, first.toNat,
          .overflow (first :: more)⟩
| .glyph g =>
    if g.isSpace then
      .ok none
    else
      match TokenKind.ofSymbol? g.toChar with
      | some kind => .ok (some ⟨offset, Token.ofKind kind⟩)
      | none =>
          .error ⟨offset, g.toChar.toNat,
            .invalidSymbol g.toChar⟩

/- The tokens of lexemes that begin at an offset. -/
def tokens
    (policy : OverflowPolicy) :
    Nat → List Lexeme → Except LexError (List PlacedToken)
| _, [] => .ok []
| offset, l :: ls => do
    let t ← l.token? policy offset
    let ts ← tokens policy (offset + l.size) ls
    return t.toList ++ ts

/- What a scan has found, unless it was stopped. -/
theorem tokens_eq_scan
    (policy : OverflowPolicy)
    (offset : Nat)
    (ls : List Lexeme) :
    tokens policy offset ls =
      match (scan policy offset ls).error with
      | some e => .error e
      | none => .ok (scan policy offset ls).tokens := by
  induction ls generalizing offset with
  | nil => rfl
  | cons l ls ih =>
      rw [tokens, ih]
      cases l with
      | digits first more =>
          rw [scan, token?]
          cases Numeral.read policy 0 (first :: more) with
          | overflow unread => rfl
          | value v =>
              simp only [Scan.prepend, size,
                List.length_cons]
              cases (scan policy
                (offset + (more.length + 1)) ls).error <;>
                rfl
      | glyph g =>
          rw [scan, token?]
          by_cases hSpace : g.isSpace = true
          · simp only [if_pos hSpace, size]
            cases (scan policy (offset + g.size) ls).error <;>
              rfl
          · simp only [hSpace]
            cases TokenKind.ofSymbol? g.toChar with
            | none => rfl
            | some kind =>
                simp only [Scan.prepend, size]
                cases (scan policy
                  (offset + g.size) ls).error <;>
                  rfl

theorem lex_eq_tokens
    (policy : OverflowPolicy)
    (line : Text) :
    lex policy line = tokens policy 0 line.lexemes := by
  rw [tokens_eq_scan]
  simp only [lex, Lexer.result, Lexer.advance,
    Lexer.ofLine]
  cases (scan policy 0 line.lexemes).error <;> rfl

------------------------------------------------------------
-- Lexemes One After the Other
------------------------------------------------------------

/- Lexemes in a row have their tokens in a row. -/
theorem tokens_append
    (policy : OverflowPolicy)
    (offset : Nat)
    (ls ms : List Lexeme) :
    tokens policy offset (ls ++ ms) = do
      let ts ← tokens policy offset ls
      let us ← tokens policy (offset + span ls) ms
      return ts ++ us := by
  induction ls generalizing offset with
  | nil =>
      rw [List.nil_append, span]
      cases tokens policy offset ms <;> rfl
  | cons l ls ih =>
      rw [List.cons_append, tokens, tokens, ih, span,
        ← Nat.add_assoc]
      cases l.token? policy offset with
      | error e => rfl
      | ok t =>
          cases tokens policy (offset + l.size) ls with
          | error e => rfl
          | ok ts =>
              cases tokens policy
                  (offset + l.size + span ls) ms with
              | error e => rfl
              | ok us =>
                  simp [bind, Except.bind, pure,
                    Except.pure]

section Sequences

variable {policy : OverflowPolicy} {offset : Nat}
variable {l : Lexeme} {ls ms : List Lexeme}
variable {t : PlacedToken} {ts : List PlacedToken}
variable {e : LexError}

theorem offset_of_token?
    (hToken : l.token? policy offset = .ok (some t)) :
    t.offset = offset := by
  cases l with
  | digits first more =>
      simp only [token?] at hToken
      split at hToken
      · cases hToken
        rfl
      · cases hToken
  | glyph g =>
      simp only [token?] at hToken
      split at hToken
      · cases hToken
      · split at hToken
        · cases hToken
          rfl
        · cases hToken

/- An error tells the place and the first character. -/
theorem place_of_token?_eq_error
    (hToken : l.token? policy offset = .error e) :
    e.offset = offset ∧
      ∃ g gs, l.glyphs = g :: gs ∧
        e.char = g.toChar.toNat := by
  cases l with
  | digits first more =>
      simp only [token?] at hToken
      split at hToken
      · cases hToken
      · cases hToken
        exact ⟨rfl, .char first, more.map .char, rfl, rfl⟩
  | glyph g =>
      simp only [token?] at hToken
      split at hToken
      · cases hToken
      · split at hToken
        · cases hToken
        · cases hToken
          exact ⟨rfl, g, [], rfl, rfl⟩

theorem tokens_cons_eq_ok_iff :
    tokens policy offset (l :: ls) = .ok ts ↔
      ∃ t us,
        l.token? policy offset = .ok t ∧
          tokens policy (offset + l.size) ls = .ok us ∧
          ts = t.toList ++ us := by
  rw [tokens]
  cases l.token? policy offset with
  | error e => simp [bind, Except.bind]
  | ok t =>
      cases tokens policy (offset + l.size) ls with
      | error e => simp [bind, Except.bind]
      | ok us =>
          simp [bind, Except.bind, pure, Except.pure,
            eq_comm]

theorem tokens_cons_eq_error_iff :
    tokens policy offset (l :: ls) = .error e ↔
      l.token? policy offset = .error e ∨
        ∃ t,
          l.token? policy offset = .ok t ∧
            tokens policy (offset + l.size) ls =
              .error e := by
  rw [tokens]
  cases l.token? policy offset with
  | error e => simp [bind, Except.bind]
  | ok t =>
      cases tokens policy (offset + l.size) ls with
      | error e => simp [bind, Except.bind]
      | ok us =>
          simp [bind, Except.bind, pure, Except.pure]

/- No lexeme of a line that has tokens is an error. -/
theorem exists_token?_of_tokens_eq_ok
    (hTokens :
      tokens policy offset (ls ++ l :: ms) = .ok ts) :
    ∃ t, l.token? policy (offset + span ls) = .ok t := by
  induction ls generalizing offset ts with
  | nil =>
      rcases tokens_cons_eq_ok_iff.mp hTokens with
        ⟨t, us, hToken, _, _⟩
      exact ⟨t, hToken⟩
  | cons first ls ih =>
      rcases tokens_cons_eq_ok_iff.mp hTokens with
        ⟨t, us, _, hRest, _⟩
      rw [span, ← Nat.add_assoc]
      exact ih hRest

/- A line's tokens are the tokens of its lexemes. -/
theorem mem_tokens_iff
    (hTokens : tokens policy offset ls = .ok ts) :
    t ∈ ts ↔
      ∃ before l after,
        ls = before ++ l :: after ∧
          l.token? policy (offset + span before) =
            .ok (some t) := by
  induction ls generalizing offset ts with
  | nil =>
      cases hTokens
      simp
  | cons l ls ih =>
      rcases tokens_cons_eq_ok_iff.mp hTokens with
        ⟨t', us, hFirst, hRest, rfl⟩
      rw [List.mem_append, ih hRest, Option.mem_toList]
      constructor
      · rintro (rfl | ⟨before, l', after, rfl, hToken⟩)
        · exact ⟨[], l, ls, rfl, hFirst⟩
        · refine ⟨l :: before, l', after, rfl, ?_⟩
          rw [span, ← Nat.add_assoc]
          exact hToken
      · rintro ⟨before, l', after, hSplit, hToken⟩
        cases before with
        | nil =>
            cases hSplit
            exact .inl (Except.ok.inj
              (hFirst.symm.trans hToken))
        | cons l before =>
            cases hSplit
            rw [span, ← Nat.add_assoc] at hToken
            exact .inr ⟨before, l', after, rfl, hToken⟩

/- Tokens lie within the lexemes that they were made of. -/
theorem offset_mem_bounds
    (hTokens : tokens policy offset ls = .ok ts)
    (hMem : t ∈ ts) :
    (offset : Int) ≤ t.offset ∧
      t.offset < (offset + span ls : Nat) := by
  induction ls generalizing offset ts with
  | nil =>
      cases hTokens
      cases hMem
  | cons l ls ih =>
      rcases tokens_cons_eq_ok_iff.mp hTokens with
        ⟨t', us, hFirst, hRest, rfl⟩
      have hPos := l.size_pos
      rw [span]
      rcases List.mem_append.mp hMem with hHead | hTail
      · rw [Option.mem_toList] at hHead
        cases hHead
        rw [offset_of_token? hFirst]
        omega
      · have hBounds := ih hRest hTail
        omega

theorem pairwise_offset
    (hTokens : tokens policy offset ls = .ok ts) :
    ts.Pairwise fun t u => t.offset < u.offset := by
  induction ls generalizing offset ts with
  | nil =>
      cases hTokens
      exact .nil
  | cons l ls ih =>
      rcases tokens_cons_eq_ok_iff.mp hTokens with
        ⟨t', us, hFirst, hRest, rfl⟩
      cases t' with
      | none => exact ih hRest
      | some t =>
          refine List.pairwise_cons.mpr ⟨?_, ih hRest⟩
          intro u hMem
          have hPos := l.size_pos
          have hBounds := offset_mem_bounds hRest hMem
          rw [offset_of_token? hFirst]
          omega

/- Of lexemes in a row the first to be in error counts. -/
theorem tokens_append_eq_error_iff :
    tokens policy offset (ls ++ ms) = .error e ↔
      tokens policy offset ls = .error e ∨
        ∃ ts, tokens policy offset ls = .ok ts ∧
          tokens policy (offset + span ls) ms =
            .error e := by
  rw [tokens_append]
  cases tokens policy offset ls with
  | error e => simp [bind, Except.bind]
  | ok ts =>
      cases tokens policy (offset + span ls) ms with
      | error e => simp [bind, Except.bind]
      | ok us =>
          simp [bind, Except.bind, pure, Except.pure]

/- An error lies within the lexemes that it is about. -/
theorem error_offset_mem_bounds
    (hTokens : tokens policy offset ls = .error e) :
    (offset : Int) ≤ e.offset ∧
      e.offset < (offset + span ls : Nat) := by
  induction ls generalizing offset with
  | nil => cases hTokens
  | cons l ls ih =>
      have hPos := l.size_pos
      rw [span]
      rcases tokens_cons_eq_error_iff.mp hTokens with
        hFirst | ⟨t, _, hRest⟩
      · rw [(place_of_token?_eq_error hFirst).1]
        omega
      · have hBounds := ih hRest
        omega

/- An error is that of the first lexeme which is one. -/
theorem exists_split_of_tokens_eq_error
    (hTokens : tokens policy offset ls = .error e) :
    ∃ before l after us,
      ls = before ++ l :: after ∧
        tokens policy offset before = .ok us ∧
        l.token? policy (offset + span before) =
          .error e := by
  induction ls generalizing offset with
  | nil => cases hTokens
  | cons l ls ih =>
      rcases tokens_cons_eq_error_iff.mp hTokens with
        hFirst | ⟨t, hFirst, hRest⟩
      · exact ⟨[], l, ls, [], rfl, rfl, hFirst⟩
      · rcases ih hRest with
          ⟨before, l', after, us, rfl, hBefore, hToken⟩
        refine ⟨l :: before, l', after, t.toList ++ us, rfl,
          ?_, ?_⟩
        · exact tokens_cons_eq_ok_iff.mpr
            ⟨t, us, hFirst, hBefore, rfl⟩
        · rw [span, ← Nat.add_assoc]
          exact hToken

end Sequences

------------------------------------------------------------
-- Tokens of One Lexeme
------------------------------------------------------------

end Lexeme

namespace TokenKind

theorem exists_ofSymbol?_iff
    {c : Char} :
    (∃ kind, ofSymbol? c = some kind) ↔
      c ∈ ['+', '-', '*', '/', '(', ')'] := by
  unfold ofSymbol?
  split <;> simp_all

/- A token's symbol is neither white space nor a digit. -/
theorem char_of_symbol?
    {c : Char}
    {kind : TokenKind}
    (hSymbol : kind.symbol? = some c) :
    CharClass.space.contains c = false ∧
      c.isDigit = false ∧ c.utf8Size = 1 := by
  cases kind
  all_goals simp [symbol?] at hSymbol
  all_goals subst hSymbol
  all_goals decide

end TokenKind

/- White space, a digit or one of the operators. -/
def Glyph.IsLexical
    (g : Glyph) :
    Prop :=
  g.isSpace = true ∨ g.isDigit = true ∨
    g.toChar ∈ ['+', '-', '*', '/', '(', ')']

namespace Lexeme

/- White space is neither a digit nor a token's symbol. -/
theorem char_of_space
    {c : Char}
    (hSpace : CharClass.space.contains c = true) :
    c.isDigit = false ∧ TokenKind.ofSymbol? c = none := by
  constructor
  · cases hDigit : c.isDigit with
    | false => rfl
    | true =>
        simp [CharClass.contains, CharClass.space] at hSpace
        simp [Char.isDigit, UInt32.le_iff_toNat_le]
          at hDigit
        omega
  · cases hSymbol : TokenKind.ofSymbol? c with
    | none => rfl
    | some kind =>
        have hOther := TokenKind.char_of_symbol?
          (TokenKind.symbol?_of_ofSymbol? hSymbol)
        rw [hOther.1] at hSpace
        cases hSpace

section Tokens

variable {policy : OverflowPolicy} {offset : Nat}
variable {g : Glyph} {gs : List Glyph}
variable {t : PlacedToken} {ts : List PlacedToken}

/- A run of digits has its number as token, or is refused. -/
theorem eq_of_token?_digits
    {first : Char}
    {more : List Char}
    {t : Option PlacedToken}
    (hToken :
      token? policy offset (.digits first more) = .ok t) :
    t = some
      ⟨offset, .ofNumber (UInt32.ofNat
        (Numeral.decimal (first :: more)))⟩ := by
  simp only [token?] at hToken
  split at hToken
  · rename_i v hRead
    cases hToken
    rw [Numeral.eq_of_read_eq_value hRead]
    rfl
  · cases hToken

theorem token?_glyph_eq_none_iff :
    token? policy offset (.glyph g) = .ok none ↔
      g.isSpace = true := by
  simp only [token?]
  split
  · rename_i hSpace
    simp [hSpace]
  · rename_i hSpace
    cases TokenKind.ofSymbol? g.toChar <;> simp [hSpace]

theorem token?_glyph_eq_some_iff :
    token? policy offset (.glyph g) = .ok (some t) ↔
      ∃ kind, kind.symbol? = some g.toChar ∧
        t = ⟨offset, .ofKind kind⟩ := by
  simp only [token?]
  constructor
  · intro hToken
    split at hToken
    · cases hToken
    · split at hToken
      · rename_i kind hKind
        cases hToken
        exact ⟨kind, TokenKind.symbol?_of_ofSymbol? hKind,
          rfl⟩
      · cases hToken
  · rintro ⟨kind, hSymbol, rfl⟩
    have hOther : ¬ g.isSpace = true := by
      simp [Glyph.isSpace,
        (TokenKind.char_of_symbol? hSymbol).1]
    rw [if_neg hOther,
      TokenKind.ofSymbol?_of_symbol? hSymbol]

theorem token?_glyph_eq_error_iff
    {e : LexError}
    (hProper : g.isDigit = false) :
    token? policy offset (.glyph g) = .error e ↔
      ¬ g.IsLexical ∧
        e = ⟨offset, g.toChar.toNat,
          .invalidSymbol g.toChar⟩ := by
  simp only [token?, Glyph.IsLexical,
    ← TokenKind.exists_ofSymbol?_iff, hProper]
  cases g.isSpace with
  | true => simp
  | false =>
      cases TokenKind.ofSymbol? g.toChar with
      | none => simp [eq_comm]
      | some kind => simp

theorem isLexical_of_token?
    {l : Lexeme}
    {t : Option PlacedToken}
    (hProper : l.IsProper)
    (hToken : l.token? policy offset = .ok t)
    (hMem : g ∈ l.glyphs) :
    g.IsLexical := by
  cases l with
  | digits first more =>
      rcases List.mem_map.mp hMem with ⟨c, hChar, rfl⟩
      exact .inr (.inl (hProper c hChar))
  | glyph g' =>
      cases List.mem_singleton.mp hMem
      by_contra hOther
      have hError :
          token? policy offset (.glyph g) = .error _ :=
        (token?_glyph_eq_error_iff hProper).mpr ⟨hOther, rfl⟩
      rw [hToken] at hError
      cases hError

/- Only lexical glyphs are in a line that has tokens. -/
theorem isLexical_of_tokens
    (hTokens : tokens policy offset (ofGlyphs gs) = .ok ts)
    (hMem : g ∈ gs) :
    g.IsLexical := by
  rw [← flatMap_glyphs_ofGlyphs gs, List.mem_flatMap] at hMem
  rcases hMem with ⟨l, hMem, hGlyph⟩
  rcases List.append_of_mem hMem with
    ⟨before, after, hSplit⟩
  rw [hSplit] at hTokens
  rcases exists_token?_of_tokens_eq_ok hTokens with
    ⟨t, hToken⟩
  exact isLexical_of_token?
    (isProper_of_mem_ofGlyphs hMem) hToken hGlyph

end Tokens

end Lexeme

end ExprCompiler
