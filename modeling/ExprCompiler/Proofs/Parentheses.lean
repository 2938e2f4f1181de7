import ExprCompiler.Proofs.CheckedLexing
import ExprCompiler.Proofs.Compiling
import ExprCompiler.Proofs.Concatenation

/-
  Lines that are put together from lines in parentheses.

  Key definitions include:
    * `Text.group`
    * `Text.Spells`
    * `CompilesTo`

  Main declarations:
    * `Grammar.Derives.relocate`
    * `Text.Spells.group`
    * `compilesTo_iff_spells`
    * `exists_spells_of_isLegal`
    * `compilesTo_groups`

  What a line spells does not depend on what stands around
  its parentheses. So lines can be put together as the trees
  are that they compile to, and every legal tree is reached.
-/

------------------------------------------------------------
-- Derivations of Moved Tokens
------------------------------------------------------------

namespace ExprCompiler

open Grammar

/- The grammar does not look at offsets. -/
theorem Grammar.Derives.relocate
    (f : Int → Int)
    {level : Level}
    {ts : List PlacedToken}
    {e : Expr}
    (hDerives : Derives level ts e) :
    Derives level (ts.map (.relocate f)) e := by
  induction hDerives with
  | ofProduct _ ih => exact .ofProduct ih
  | ofFactor _ ih => exact .ofFactor ih
  | ofPrimary _ ih => exact .ofPrimary ih
  | @sum _ _ t _ _ _ _ hOp _ ihLeft ihRight =>
      rw [List.map_append, List.map_cons]
      exact .sum (t := t.relocate f) ihLeft hOp ihRight
  | @product _ _ t _ _ _ _ hOp _ ihLeft ihRight =>
      rw [List.map_append, List.map_cons]
      exact .product (t := t.relocate f) ihLeft hOp ihRight
  | @signed t _ _ _ hSign _ ih =>
      exact .signed (t := t.relocate f) hSign ih
  | @number t hKind =>
      exact .number (t := t.relocate f) hKind
  | @group first last ts e hOpen _ hClose ih =>
      have hGroup :
          Derives .primary
            (first.relocate f :: ts.map (.relocate f) ++
              [last.relocate f]) e :=
        .group hOpen ih hClose
      rwa [List.map_append, List.map_cons]

------------------------------------------------------------
-- Symbols of Operations
------------------------------------------------------------

/- A known operation is a token in front of a primary. -/
theorem UnaryOp.exists_kind
    (op : UnaryOp)
    (hKnown : op.IsKnown) :
    ∃ (kind : TokenKind) (c : Char),
      Text.ofString op.symbol = String.utf8EncodeChar c ∧
        kind.symbol? = some c ∧ kind.sign? = some op := by
  cases op with
  | plus => exact ⟨.plus, '+', rfl, rfl, rfl⟩
  | minus => exact ⟨.minus, '-', rfl, rfl, rfl⟩
  | unknown s h => cases hKnown

/- A known operation is a token between operands. -/
theorem BinaryOp.exists_kind
    (op : BinaryOp)
    (hKnown : op.IsKnown) :
    ∃ (kind : TokenKind) (c : Char),
      Text.ofString op.symbol = String.utf8EncodeChar c ∧
        kind.symbol? = some c ∧
        (kind.sumOp? = some op ∨
          kind.productOp? = some op) := by
  cases op with
  | add => exact ⟨.plus, '+', rfl, rfl, .inl rfl⟩
  | sub => exact ⟨.minus, '-', rfl, rfl, .inl rfl⟩
  | mul => exact ⟨.asterisk, '*', rfl, rfl, .inr rfl⟩
  | div => exact ⟨.slash, '/', rfl, rfl, .inr rfl⟩
  | unknown s h => cases hKnown

------------------------------------------------------------
-- What Lines Spell
------------------------------------------------------------

namespace Text

/- A text in parentheses. -/
def group
    (t : Text) :
    Text :=
  ofString "(" ++ t ++ ofString ")"

/- A text's tokens derive from a level, with a tree. -/
def Spells
    (policy : OverflowPolicy)
    (level : Level)
    (t : Text)
    (e : Expr) :
    Prop :=
  ∃ ts, lex policy t = .ok ts ∧ Derives level ts e

section Spelling

variable {policy : OverflowPolicy}
variable {s t : Text} {e l r : Expr}
variable {c : Char} {kind : TokenKind}

/- A symbol between two texts adds its token. -/
theorem exists_lex_symbol_between
    {ts us : List PlacedToken}
    (hSymbol : kind.symbol? = some c)
    (hFirst : lex policy s = .ok ts)
    (hSecond : lex policy t = .ok us) :
    ∃ u f,
      lex policy (s ++ (String.utf8EncodeChar c ++ t)) =
          .ok (ts ++ u :: us.map (.relocate f)) ∧
        u.token.kind = kind := by
  have hDigit := (TokenKind.char_of_symbol? hSymbol).2.1
  have hBehind :=
    lex_append_eq_ok (seam_char_left hDigit t)
      (lex_symbol policy hSymbol) hSecond
  have hWhole :=
    lex_append_eq_ok (seam_char_right hDigit s t)
      hFirst hBehind
  rw [List.singleton_append, List.map_cons,
    List.map_map] at hWhole
  exact ⟨_, (· + s.length) ∘
    (· + (String.utf8EncodeChar c).length), hWhole, rfl⟩

/- Parentheses make a primary of any expression. -/
theorem Spells.group
    (hSpells : Spells policy .sum t e) :
    Spells policy .primary t.group e := by
  rcases hSpells with ⟨ts, hLex, hDerives⟩
  have hOpen : TokenKind.openParen.symbol? = some '(' := rfl
  have hClose : TokenKind.closeParen.symbol? = some ')' := rfl
  have hEmpty : lex policy [] = .ok [] := rfl
  rcases exists_lex_symbol_between hClose hLex hEmpty with
    ⟨last, f, hLast, hLastKind⟩
  rcases exists_lex_symbol_between hOpen hEmpty hLast with
    ⟨first, g, hFirst, hFirstKind⟩
  have hText :
      t.group =
        [] ++ (String.utf8EncodeChar '(' ++
          (t ++ (String.utf8EncodeChar ')' ++ []))) := by
    rw [Text.group, List.append_assoc]
    rfl
  have hGroup :
      Derives .primary
        (first :: ts.map (.relocate g) ++
          [last.relocate g]) e :=
    .group hFirstKind (hDerives.relocate g) hLastKind
  refine ⟨_, hText ▸ hFirst, ?_⟩
  simpa using hGroup

/- A known sign makes an expression of a primary. -/
theorem Spells.unary
    {op : UnaryOp}
    (hKnown : op.IsKnown)
    (hSpells : Spells policy .primary t e) :
    Spells policy .sum (ofString op.symbol ++ t)
      (.unary op e) := by
  rcases hSpells with ⟨ts, hLex, hDerives⟩
  rcases op.exists_kind hKnown with
    ⟨kind, c, hText, hSymbol, hSign⟩
  have hEmpty : lex policy [] = .ok [] := rfl
  rcases exists_lex_symbol_between hSymbol hEmpty hLex with
    ⟨first, f, hFirst, rfl⟩
  have hFactor := Derives.signed hSign (hDerives.relocate f)
  rw [hText]
  exact ⟨_, hFirst, .ofProduct (.ofFactor hFactor)⟩

/- A known operation makes one of two primaries. -/
theorem Spells.binary
    {op : BinaryOp}
    (hKnown : op.IsKnown)
    (hLeft : Spells policy .primary s l)
    (hRight : Spells policy .primary t r) :
    Spells policy .sum (s ++ ofString op.symbol ++ t)
      (.binary op l r) := by
  rcases hLeft with ⟨ts, hLex, hDerives⟩
  rcases hRight with ⟨us, hLex', hDerives'⟩
  rcases op.exists_kind hKnown with
    ⟨kind, c, hText, hSymbol, hOp⟩
  rcases exists_lex_symbol_between hSymbol hLex hLex' with
    ⟨u, f, hWhole, rfl⟩
  have hFirst := Derives.ofPrimary hDerives
  have hSecond := Derives.ofPrimary (hDerives'.relocate f)
  rw [List.append_assoc, hText]
  refine ⟨_, hWhole, ?_⟩
  rcases hOp with hSum | hProduct
  · exact .sum (.ofProduct (.ofFactor hFirst)) hSum
      (.ofFactor hSecond)
  · exact .ofProduct
      (.product (.ofFactor hFirst) hProduct hSecond)

end Spelling

end Text

------------------------------------------------------------
-- Written Numbers
------------------------------------------------------------

theorem Text.glyphs_ofString
    (s : String) :
    (ofString s).glyphs = s.toList.map .char := by
  unfold ofString
  induction s.toList with
  | nil => rfl
  | cons c cs ih =>
      rw [List.flatMap_cons, glyphs_char_append, ih,
        List.map_cons]

namespace Lexeme

variable {first : Char} {more : List Char}

/- The digits of a number are one lexeme. -/
theorem exists_digits_of_toDigits
    (n : Nat) :
    ∃ first more,
      Nat.toDigits 10 n = first :: more ∧
        (digits first more).IsProper ∧
        Numeral.decimal (first :: more) = n := by
  cases hDigits : Nat.toDigits 10 n with
  | nil => exact absurd hDigits Nat.toDigits_ne_nil
  | cons first more =>
      refine ⟨first, more, rfl, ?_, ?_⟩
      · intro c hMem
        rw [← hDigits] at hMem
        exact Nat.isDigit_of_mem_toDigits (by decide)
          (by decide) hMem
      · rw [← hDigits]
        exact Nat.ofDigitChars_ten_toDigits

/- Either policy accepts a number that fits. -/
theorem token?_of_decimal_eq
    (policy : OverflowPolicy)
    {v : UInt32}
    (hDecimal : Numeral.decimal (first :: more) = v.toNat) :
    (digits first more).token? policy 0 =
      .ok (some ⟨0, .ofNumber v⟩) := by
  have hWrap :
      (digits first more).token? .wrap 0 =
        .ok (some ⟨0, .ofNumber v⟩) := by
    rw [token?_digits (by decide), hDecimal,
      UInt32.ofNat_toNat]
    rfl
  have hFits : ¬ (digits first more).IsWide := by
    rw [IsWide, hDecimal]
    exact Nat.not_le.mpr v.toNat_lt
  cases policy with
  | wrap => exact hWrap
  | check =>
      exact (token?_check_of_not_isWide hFits 0).trans hWrap

end Lexeme

/- The digits of a number are read back as the number. -/
theorem lex_number
    (policy : OverflowPolicy)
    (v : UInt32) :
    lex policy (Text.ofString (toString v.toNat)) =
      .ok [⟨0, .ofNumber v⟩] := by
  rcases Lexeme.exists_digits_of_toDigits v.toNat with
    ⟨first, more, hDigits, hProper, hDecimal⟩
  have hChars :
      (toString v.toNat).toList = first :: more :=
    Nat.toList_repr.trans hDigits
  rw [Lexeme.lex_eq_tokens, Text.lexemes,
    Text.glyphs_ofString, hChars,
    Lexeme.ofGlyphs_digits hProper,
    Lexeme.tokens_cons_eq_ok_iff]
  exact ⟨_, [],
    Lexeme.token?_of_decimal_eq policy hDecimal, rfl, rfl⟩

------------------------------------------------------------
-- Compiled Lines
------------------------------------------------------------

/- A line compiles, and the tree is the given one. -/
def CompilesTo
    (policy : OverflowPolicy)
    (line : Text)
    (e : Expr) :
    Prop :=
  ∃ c, (compile policy line).1 = .ok c ∧ c.tree = e

theorem compilesTo_iff_map
    {policy : OverflowPolicy}
    {line : Text}
    {e : Expr} :
    (compile policy line).1.map (·.tree) = .ok e ↔
      CompilesTo policy line e := by
  unfold CompilesTo
  cases (compile policy line).1 <;> simp [Except.map]

instance
    (policy : OverflowPolicy)
    (line : Text)
    (e : Expr) :
    Decidable (CompilesTo policy line e) :=
  decidable_of_iff _ compilesTo_iff_map

/- A line compiles to exactly the tree that it spells. -/
theorem compilesTo_iff_spells
    {policy : OverflowPolicy}
    {line : Text}
    {e : Expr} :
    CompilesTo policy line e ↔ line.Spells policy .sum e := by
  constructor
  · rintro ⟨c, hCompile, rfl⟩
    rcases compile_eq_ok_iff.mp hCompile with
      ⟨ts, e, p, hLex, hParse, _, rfl⟩
    exact ⟨ts, hLex, Expr.derives_of_parse_eq_ok hParse⟩
  · rintro ⟨ts, hLex, hDerives⟩
    rcases Expr.exists_code_of_isLegal hDerives.isLegal with
      ⟨p, hCode⟩
    have hParse : Expr.parse line.length ts = .ok e :=
      Expr.parse_eq_ok_iff.mpr
        (Parser.read_eq_tree_of_derives _ hDerives)
    exact ⟨_, compile_eq_ok_iff.mpr
      ⟨ts, e, p, hLex, hParse, hCode, rfl⟩, rfl⟩

/- Every legal tree is spelled, with all its groups. -/
theorem exists_spells_of_isLegal
    (policy : OverflowPolicy)
    {e : Expr}
    (hLegal : e.IsLegal) :
    ∃ line : Text, line.Spells policy .sum e := by
  induction e with
  | missing => cases hLegal
  | number v =>
      have hNumber :
          Derives .primary [⟨0, .ofNumber v⟩] (.number v) :=
        .number rfl
      exact ⟨_, _, lex_number policy v,
        .ofProduct (.ofFactor (.ofPrimary hNumber))⟩
  | unary op x ih =>
      rcases ih hLegal.2 with ⟨s, hSpells⟩
      exact ⟨_, hSpells.group.unary hLegal.1⟩
  | binary op l r ihLeft ihRight =>
      rcases hLegal with ⟨hKnown, hLeft, hRight⟩
      rcases ihLeft hLeft with ⟨s, hSpells⟩
      rcases ihRight hRight with ⟨t, hSpells'⟩
      exact ⟨_, hSpells.group.binary hKnown hSpells'.group⟩

/-
  Parentheses around a line keep its tree, a sign in front
  of them and an operator between them make the nodes they
  stand for, and so every legal tree is the tree of a line.
-/
theorem compilesTo_groups
    (policy : OverflowPolicy) :
    (∀ s t a b,
        CompilesTo policy s a → CompilesTo policy t b →
          CompilesTo policy s.group a ∧
            (∀ op : BinaryOp, op.IsKnown →
              CompilesTo policy
                (s.group ++ Text.ofString op.symbol ++
                  t.group)
                (.binary op a b)) ∧
            ∀ op : UnaryOp, op.IsKnown →
              CompilesTo policy
                (Text.ofString op.symbol ++ s.group)
                (.unary op a)) ∧
      ∀ e : Expr, e.IsLegal →
        ∃ line, CompilesTo policy line e := by
  simp only [compilesTo_iff_spells]
  refine ⟨?_, fun e => exists_spells_of_isLegal policy⟩
  intro s t a b hLeft hRight
  refine ⟨?_, ?_, ?_⟩
  · rcases hLeft.group with ⟨ts, hLex, hPrimary⟩
    exact ⟨ts, hLex,
      .ofProduct (.ofFactor (.ofPrimary hPrimary))⟩
  · intro op hKnown
    exact hLeft.group.binary hKnown hRight.group
  · intro op hKnown
    exact hLeft.group.unary hKnown

/- A difference divided by the widest number, with a sign. -/
theorem compilesTo_quotient_of_groups :
    let s := Text.ofString "1 - 2"
    let t := Text.ofString "+ 4294967295"
    let a : Expr := .binary .sub (.number 1) (.number 2)
    let b : Expr := .unary .plus (.number 4294967295)
    CompilesTo .check s a ∧ CompilesTo .check t b ∧
      CompilesTo .check
        (s.group ++ Text.ofString "/" ++ t.group)
        (.binary .div a b) := by
  intro s t a b
  have hLeft : CompilesTo .check s a := by
    decide +kernel
  have hRight : CompilesTo .check t b := by
    decide +kernel
  rcases compilesTo_groups .check with ⟨hGroups, _⟩
  exact ⟨hLeft, hRight,
    (hGroups s t a b hLeft hRight).2.1 .div trivial⟩

end ExprCompiler
