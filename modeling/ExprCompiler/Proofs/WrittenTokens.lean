import ExprCompiler.Proofs.Parentheses
import Mathlib.Data.List.Chain

/-
  Tokens that are written down and read back.

  Key definitions include:
    * `Token.IsPlain`
    * `Text.written`
    * `Text.IsSpaced`
    * `Text.placed`

  Main declarations:
    * `Text.exists_chars_of_isBlank`
    * `Text.seam_of_isBlank`
    * `lex_text`
    * `lex_written`
    * `lex_undoes_writing`

  White space can be put anywhere between tokens. It has to
  be put only between two numbers, since no other token goes
  on behind its own text.
-/

------------------------------------------------------------
-- White Space
------------------------------------------------------------

namespace ExprCompiler

namespace Text

/- White space is the encoding of its characters. -/
theorem exists_chars_of_isBlank
    {space : Text}
    (hBlank : space.isBlank = true) :
    ∃ cs : List Char,
      space = cs.flatMap String.utf8EncodeChar ∧
        ∀ c ∈ cs, CharClass.space.contains c = true := by
  rw [isBlank, List.all_eq_true] at hBlank
  rw [← flatMap_bytes_glyphs space]
  generalize space.glyphs = gs at hBlank
  induction gs with
  | nil => exact ⟨[], rfl, nofun⟩
  | cons g gs ih =>
      rw [List.forall_mem_cons] at hBlank
      rcases ih hBlank.2 with ⟨cs, hText, hSpaces⟩
      cases g with
      | stray b =>
          have hOther :
              CharClass.space.contains '\uFFFD' = false := by
            decide
          have hSpace : (Glyph.stray b).isSpace = true :=
            hBlank.1
          rw [Glyph.isSpace, Glyph.toChar, hOther] at hSpace
          cases hSpace
      | char c =>
          refine ⟨c :: cs, ?_, ?_⟩
          · rw [List.flatMap_cons, List.flatMap_cons, hText]
            rfl
          · exact List.forall_mem_cons.mpr
              ⟨hBlank.1, hSpaces⟩

/- White space is empty or does not begin with a digit. -/
theorem isBlank_cases
    {space : Text}
    (hBlank : space.isBlank = true) :
    space = [] ∨
      ∃ c rest,
        c.isDigit = false ∧
          space = String.utf8EncodeChar c ++ rest := by
  rcases exists_chars_of_isBlank hBlank with
    ⟨cs, rfl, hSpaces⟩
  cases cs with
  | nil => exact .inl rfl
  | cons c cs =>
      have hSpace := hSpaces c List.mem_cons_self
      exact .inr ⟨c, cs.flatMap String.utf8EncodeChar,
        (Lexeme.char_of_space hSpace).1, rfl⟩

section Seams

variable {a b : Text} {c : Char}

theorem Seam.char_append
    (hSeam : Seam a b)
    (hDigit : c.isDigit = false) :
    Seam (String.utf8EncodeChar c ++ a) b := by
  constructor
  · rw [List.append_assoc, glyphs_char_append,
      glyphs_char_append, hSeam.glyphs, List.cons_append]
  · rw [glyphs_char_append]
    cases hGlyphs : a.glyphs with
    | nil =>
        exact Glyph.seam_singleton_of_isDigit_eq_false
          (g := .char c) hDigit _
    | cons g gs =>
        rw [Glyph.seam_cons_cons_iff, ← hGlyphs]
        exact hSeam.digits

theorem seam_nil_right
    (a : Text) :
    Seam a [] := by
  constructor
  · rw [List.append_nil, glyphs_nil, List.append_nil]
  · exact Glyph.seam_nil_right _

/- A text can be cut behind white space. -/
theorem seam_of_isBlank
    (hBlank : a.isBlank = true)
    (b : Text) :
    Seam a b := by
  rcases exists_chars_of_isBlank hBlank with
    ⟨cs, rfl, hSpaces⟩
  clear hBlank
  induction cs with
  | nil => exact ⟨rfl, Glyph.seam_nil _⟩
  | cons c cs ih =>
      rw [List.forall_mem_cons] at hSpaces
      rw [List.flatMap_cons]
      exact (ih hSpaces.2).char_append
        (Lexeme.char_of_space hSpaces.1).1

end Seams

end Text

theorem lex_of_isBlank
    (policy : OverflowPolicy)
    {space : Text}
    (hBlank : space.isBlank = true) :
    lex policy space = .ok [] := by
  rcases Text.exists_chars_of_isBlank hBlank with
    ⟨cs, rfl, hSpaces⟩
  clear hBlank
  induction cs with
  | nil => rfl
  | cons c cs ih =>
      rw [List.forall_mem_cons] at hSpaces
      rw [List.flatMap_cons]
      exact lex_append_eq_ok
        (Text.seam_char_left
          (Lexeme.char_of_space hSpaces.1).1 _)
        (lex_space policy hSpaces.1) (ih hSpaces.2)

------------------------------------------------------------
-- Single Tokens
------------------------------------------------------------

/- Whether a kind is one of the known ones. -/
def TokenKind.IsKnown : TokenKind → Prop
| .unknown _ _ => False
| _ => True

namespace Token

/- A token of a known kind; only numbers have a value. -/
def IsPlain
    (t : Token) :
    Prop :=
  t.kind.IsKnown ∧ (t.kind ≠ .number → t.value = 0)

/- A plain token is a number or has a symbol. -/
theorem isPlain_cases
    {t : Token}
    (hPlain : t.IsPlain) :
    (∃ v, t = .ofNumber v) ∨
      ∃ kind c, kind.symbol? = some c ∧ t = .ofKind kind := by
  rcases t with ⟨kind, v⟩
  rcases hPlain with ⟨hKnown, hValue⟩
  cases kind with
  | number => exact .inl ⟨v, rfl⟩
  | unknown code h => exact absurd hKnown id
  | _ =>
      right
      cases hValue nofun
      exact ⟨_, _, rfl, rfl⟩

theorem ofString_text_ofKind
    {kind : TokenKind}
    {c : Char}
    (hSymbol : kind.symbol? = some c) :
    Text.ofString (ofKind kind).text =
      String.utf8EncodeChar c := by
  cases kind
  all_goals cases hSymbol
  all_goals rfl

end Token

/- A token is read back from its own text. -/
theorem lex_text
    (policy : OverflowPolicy)
    {t : Token}
    (hPlain : t.IsPlain) :
    lex policy (Text.ofString t.text) = .ok [⟨0, t⟩] := by
  rcases Token.isPlain_cases hPlain with
    ⟨v, rfl⟩ | ⟨kind, c, hSymbol, rfl⟩
  · exact lex_number policy v
  · rw [Token.ofString_text_ofKind hSymbol]
    exact lex_symbol policy hSymbol

------------------------------------------------------------
-- Tokens in a Row
------------------------------------------------------------

namespace Text

/-
  The text of tokens that are written one after the other,
  each behind a text of its own, and a text behind them all.
-/
def written
    (last : Text) :
    List (Text × Token) → Text
| [] => last
| (space, t) :: rest =>
    space ++ (ofString t.text ++ written last rest)

/-
  Plain tokens with white space around them, of which there
  is some between two numbers.
-/
structure IsSpaced
    (last : Text)
    (ps : List (Text × Token)) :
    Prop where
  plain : ∀ p ∈ ps, p.2.IsPlain
  blank : ∀ p ∈ ps, p.1.isBlank = true
  blank_last : last.isBlank = true
  apart :
    ps.IsChain fun p q =>
      p.2.kind = .number → q.2.kind = .number → q.1 ≠ []

/- The tokens at the places where their texts begin. -/
def placed
    (offset : Nat) :
    List (Text × Token) → List PlacedToken
| [] => []
| (space, t) :: rest =>
    ⟨offset + space.length, t⟩ ::
      placed
        (offset + space.length + (ofString t.text).length)
        rest

theorem map_token_placed
    (offset : Nat)
    (ps : List (Text × Token)) :
    (placed offset ps).map (·.token) = ps.map (·.2) := by
  induction ps generalizing offset with
  | nil => rfl
  | cons p ps ih => exact congrArg (p.2 :: ·) (ih _)

theorem map_relocate_placed
    (offset n : Nat)
    (ps : List (Text × Token)) :
    (placed offset ps).map (.relocate (· + n)) =
      placed (offset + n) ps := by
  induction ps generalizing offset with
  | nil => rfl
  | cons p ps ih =>
      rcases p with ⟨space, t⟩
      rw [placed, placed, List.map_cons, ih]
      simp only [PlacedToken.relocate, List.cons.injEq,
        PlacedToken.mk.injEq, and_true]
      refine ⟨by omega, ?_⟩
      congr 1
      omega

section Rows

variable {last space : Text} {t : Token}
variable {ps before after : List (Text × Token)}

/- A token stands behind all that is written before it. -/
theorem written_append_cons :
    written last (before ++ (space, t) :: after) =
      written space before ++
        (ofString t.text ++ written last after) := by
  induction before with
  | nil => rfl
  | cons p before ih =>
      simp only [List.cons_append, written, ih,
        List.append_assoc]

theorem getElem?_placed
    (offset : Nat) :
    (placed offset (before ++ (space, t) :: after))[
        before.length]? =
      some ⟨offset + (written space before).length, t⟩ := by
  induction before generalizing offset with
  | nil => rfl
  | cons p before ih =>
      rw [List.cons_append, placed, List.length_cons,
        List.getElem?_cons_succ, ih]
      simp only [written, List.length_append, Option.some.injEq,
        PlacedToken.mk.injEq, and_true]
      omega

/- Behind a number, what is written begins with no digit. -/
theorem written_cases
    (hSpaced : IsSpaced last ps)
    (hApart :
      ∀ p ∈ ps.head?, p.2.kind = .number → p.1 ≠ []) :
    written last ps = [] ∨
      ∃ c rest,
        c.isDigit = false ∧
          written last ps =
            String.utf8EncodeChar c ++ rest := by
  cases ps with
  | nil => exact isBlank_cases hSpaced.blank_last
  | cons p ps =>
      right
      rcases p with ⟨space, t⟩
      rw [written]
      rcases isBlank_cases
          (hSpaced.blank _ List.mem_cons_self) with
        rfl | ⟨c, rest, hDigit, rfl⟩
      · rcases Token.isPlain_cases
            (hSpaced.plain _ List.mem_cons_self) with
          ⟨v, rfl⟩ | ⟨kind, c, hSymbol, rfl⟩
        · exact absurd rfl (hApart _ rfl rfl)
        · rw [Token.ofString_text_ofKind hSymbol]
          exact ⟨c, _,
            (TokenKind.char_of_symbol? hSymbol).2.1, rfl⟩
      · rw [List.append_assoc]
        exact ⟨c, _, hDigit, rfl⟩

theorem IsSpaced.tail
    {p : Text × Token}
    (hSpaced : IsSpaced last (p :: ps)) :
    IsSpaced last ps :=
  ⟨(List.forall_mem_cons.mp hSpaced.plain).2,
    (List.forall_mem_cons.mp hSpaced.blank).2,
    hSpaced.blank_last, hSpaced.apart.tail⟩

/- No token goes on into what is written behind it. -/
theorem IsSpaced.seam
    (hSpaced : IsSpaced last ((space, t) :: ps)) :
    Seam (ofString t.text) (written last ps) := by
  rcases Token.isPlain_cases
      (hSpaced.plain _ List.mem_cons_self) with
    ⟨v, rfl⟩ | ⟨kind, c, hSymbol, rfl⟩
  · have hApart :
        ∀ p ∈ ps.head?, p.2.kind = .number → p.1 ≠ [] := by
      intro p hHead
      exact hSpaced.apart.rel_head? hHead rfl
    rcases written_cases hSpaced.tail hApart with
      hNil | ⟨c, rest, hDigit, hText⟩
    · rw [hNil]
      exact seam_nil_right _
    · rw [hText]
      exact seam_char_right hDigit _ _
  · rw [Token.ofString_text_ofKind hSymbol]
    exact seam_char_left
      (TokenKind.char_of_symbol? hSymbol).2.1 _

end Rows

end Text

/- Tokens are read back from where they are written. -/
theorem lex_written
    (policy : OverflowPolicy)
    {last : Text}
    {ps : List (Text × Token)}
    (hSpaced : Text.IsSpaced last ps) :
    lex policy (Text.written last ps) =
      .ok (Text.placed 0 ps) := by
  induction ps with
  | nil => exact lex_of_isBlank policy hSpaced.blank_last
  | cons p ps ih =>
      rcases p with ⟨space, t⟩
      have hSpace := hSpaced.blank _ List.mem_cons_self
      have hToken :=
        lex_append_eq_ok hSpaced.seam
          (lex_text policy
            (hSpaced.plain _ List.mem_cons_self))
          (ih hSpaced.tail)
      rw [Text.map_relocate_placed] at hToken
      rw [Text.written,
        lex_append_eq_ok (Text.seam_of_isBlank hSpace _)
          (lex_of_isBlank policy hSpace) hToken,
        List.map_append, Text.map_relocate_placed,
        Nat.add_right_comm]
      rfl

/-
  Lexing undoes writing. Plain tokens with white space around
  them, and some of it between two numbers, are found again
  in order, each at the offset where its text begins.
-/
theorem lex_undoes_writing
    (policy : OverflowPolicy)
    {last : Text}
    {ps : List (Text × Token)}
    (hSpaced : Text.IsSpaced last ps) :
    ∃ ts,
      lex policy (Text.written last ps) = .ok ts ∧
        ts.map (·.token) = ps.map (·.2) ∧
        ∀ before space t after,
          ps = before ++ (space, t) :: after →
            Text.written last ps =
                Text.written space before ++
                  (Text.ofString t.text ++
                    Text.written last after) ∧
              ts[before.length]? =
                some ⟨(Text.written space before).length,
                  t⟩ := by
  refine ⟨_, lex_written policy hSpaced,
    Text.map_token_placed 0 ps, ?_⟩
  rintro before space t after rfl
  refine ⟨Text.written_append_cons, ?_⟩
  rw [Text.getElem?_placed, Int.natCast_zero, Int.zero_add]

/-
  Two numbers with a wide space between them and a sign right
  behind the second are read back from ` 7 4294967295- `.
-/
theorem lex_undoes_writing_of_adjacent_numbers :
    let wide := String.utf8EncodeChar '\u3000'
    let ps : List (Text × Token) :=
      [([0x20], .ofNumber 7), (wide, .ofNumber 4294967295),
        ([], .ofKind .minus)]
    Text.IsSpaced [0x20] ps ∧
      ∃ ts,
        lex .check (Text.written [0x20] ps) = .ok ts ∧
          ts.map (·.token) = ps.map (·.2) ∧
          ts[1]? = some ⟨5, .ofNumber 4294967295⟩ ∧
          ts[2]? = some ⟨15, .ofKind .minus⟩ := by
  intro wide ps
  have hSpaced : Text.IsSpaced [0x20] ps := by
    refine ⟨?_, by decide, by decide, ?_⟩
    · simp [ps, Token.IsPlain, Token.ofNumber, Token.ofKind,
        TokenKind.IsKnown]
    · simp [ps, wide, Token.ofNumber, Token.ofKind]
  rcases lex_undoes_writing .check hSpaced with
    ⟨ts, hLex, hTokens, hPlaces⟩
  have hNumber :=
    (hPlaces [([0x20], .ofNumber 7)] wide
      (.ofNumber 4294967295) [([], .ofKind .minus)] rfl).2
  have hSign :=
    (hPlaces
      [([0x20], .ofNumber 7), (wide, .ofNumber 4294967295)]
      [] (.ofKind .minus) [] rfl).2
  exact ⟨hSpaced, ts, hLex, hTokens, hNumber, hSign⟩

end ExprCompiler
