import ExprCompiler.Proofs.Lexing
import ExprCompiler.Proofs.ParserCorrectness

/-
  The exact values of expressions that are written without a
  division.

  Key definitions include:
    * `Grammar.Denotes`
    * `Lexeme.words`
    * `Lexeme.literals`
    * `Expr.exact`

  Main declarations:
    * `Lexeme.exists_split_of_words`
    * `Lexeme.space_of_words_eq_nil`
    * `Grammar.Denotes.exists_derives`
    * `Grammar.Denotes.unique`

  What characters denote is said without tokens and trees,
  in unbounded integers. Characters denote one integer at
  most: they derive with one tree, whose leaves stand for
  the numbers among them in turn.
-/

------------------------------------------------------------
-- Denotations
------------------------------------------------------------

namespace ExprCompiler

namespace Grammar

/-
  Characters denote an integer. White space may stand around
  every part of an expression, and a number is any run of
  digits.
-/
inductive Denotes : Level → List Char → Int → Prop
  | spaceBefore
      {level : Level}
      {c : Char}
      {cs : List Char}
      {x : Int}
      (hSpace : CharClass.space.contains c = true)
      (h : Denotes level cs x) :
      Denotes level (c :: cs) x
  | spaceAfter
      {level : Level}
      {c : Char}
      {cs : List Char}
      {x : Int}
      (hSpace : CharClass.space.contains c = true)
      (h : Denotes level cs x) :
      Denotes level (cs ++ [c]) x
  | ofProduct
      {cs : List Char}
      {x : Int}
      (h : Denotes .product cs x) :
      Denotes .sum cs x
  | add
      {cs ds : List Char}
      {x y : Int}
      (hLeft : Denotes .sum cs x)
      (hRight : Denotes .product ds y) :
      Denotes .sum (cs ++ '+' :: ds) (x + y)
  | sub
      {cs ds : List Char}
      {x y : Int}
      (hLeft : Denotes .sum cs x)
      (hRight : Denotes .product ds y) :
      Denotes .sum (cs ++ '-' :: ds) (x - y)
  | ofFactor
      {cs : List Char}
      {x : Int}
      (h : Denotes .factor cs x) :
      Denotes .product cs x
  | mul
      {cs ds : List Char}
      {x y : Int}
      (hLeft : Denotes .product cs x)
      (hRight : Denotes .factor ds y) :
      Denotes .product (cs ++ '*' :: ds) (x * y)
  | ofPrimary
      {cs : List Char}
      {x : Int}
      (h : Denotes .primary cs x) :
      Denotes .factor cs x
  | plus
      {cs : List Char}
      {x : Int}
      (h : Denotes .primary cs x) :
      Denotes .factor ('+' :: cs) x
  | minus
      {cs : List Char}
      {x : Int}
      (h : Denotes .primary cs x) :
      Denotes .factor ('-' :: cs) (-x)
  | number
      {digits : List Char}
      (hNonempty : digits ≠ [])
      (hDigits : ∀ c ∈ digits, c.isDigit = true) :
      Denotes .primary digits (Numeral.decimal digits)
  | group
      {cs : List Char}
      {x : Int}
      (h : Denotes .sum cs x) :
      Denotes .primary ('(' :: (cs ++ [')'])) x

theorem Denotes.spacesBefore
    {level : Level}
    {before cs : List Char}
    {x : Int}
    (hDenotes : Denotes level cs x)
    (hSpaces :
      ∀ c ∈ before, CharClass.space.contains c = true) :
    Denotes level (before ++ cs) x := by
  induction before with
  | nil => exact hDenotes
  | cons c before ih =>
      rw [List.forall_mem_cons] at hSpaces
      exact spaceBefore hSpaces.1 (ih hSpaces.2)

theorem Denotes.spacesAfter
    {level : Level}
    {cs after : List Char}
    {x : Int}
    (hDenotes : Denotes level cs x)
    (hSpaces :
      ∀ c ∈ after, CharClass.space.contains c = true) :
    Denotes level (cs ++ after) x := by
  induction after generalizing cs with
  | nil => rwa [List.append_nil]
  | cons c after ih =>
      rw [List.forall_mem_cons] at hSpaces
      have hRest :=
        ih (spaceAfter hSpaces.1 hDenotes) hSpaces.2
      rwa [List.append_assoc] at hRest

end Grammar

------------------------------------------------------------
-- Words of Characters
------------------------------------------------------------

namespace Lexeme

/- The lexemes of characters. -/
def ofChars
    (cs : List Char) :
    List Lexeme :=
  ofGlyphs (cs.map .char)

/- The token of a lexeme if wide numbers are not refused. -/
def word? : Lexeme → Option Token
| .digits first more =>
    some (.ofNumber
      (UInt32.ofNat (Numeral.decimal (first :: more))))
| .glyph g => (TokenKind.ofSymbol? g.toChar).map .ofKind

/- The number that a lexeme stands for. -/
def literal? : Lexeme → Option Nat
| .digits first more => some (Numeral.decimal (first :: more))
| .glyph _ => none

/- The tokens of characters, without their places. -/
def words
    (cs : List Char) :
    List Token :=
  (ofChars cs).filterMap word?

/- The numbers among characters. -/
def literals
    (cs : List Char) :
    List Nat :=
  (ofChars cs).filterMap literal?

section Words

variable {c : Char} {cs : List Char}

/- No run of digits goes on over any other character. -/
theorem ofChars_append_cons
    (hDigit : c.isDigit = false)
    (cs ds : List Char) :
    ofChars (cs ++ c :: ds) =
      ofChars cs ++ .glyph (.char c) :: ofChars ds := by
  have hProper : (Glyph.char c).isDigit = false := hDigit
  refine ofGlyphs_eq_append_cons_iff.mpr
    ⟨cs.map .char, ds.map .char, by simp [glyphs], hProper,
      ?_, ?_, rfl, rfl⟩
  · exact Glyph.seam_cons_of_isDigit_eq_false hProper _ _
  · exact Glyph.seam_singleton_of_isDigit_eq_false hProper _

theorem words_append_cons
    (kind : TokenKind)
    (hSymbol : kind.symbol? = some c)
    (cs ds : List Char) :
    words (cs ++ c :: ds) =
      words cs ++ .ofKind kind :: words ds := by
  have hWord :
      word? (.glyph (.char c)) = some (.ofKind kind) := by
    simp [word?, Glyph.toChar,
      TokenKind.ofSymbol?_of_symbol? hSymbol]
  rw [words, ofChars_append_cons
    (TokenKind.char_of_symbol? hSymbol).2.1 cs ds,
    List.filterMap_append, List.filterMap_cons_some hWord]
  rfl

theorem literals_append_cons
    (hDigit : c.isDigit = false)
    (cs ds : List Char) :
    literals (cs ++ c :: ds) =
      literals cs ++ literals ds := by
  rw [literals, ofChars_append_cons hDigit,
    List.filterMap_append, List.filterMap_cons_none rfl]
  rfl

theorem literals_cons
    (hDigit : c.isDigit = false)
    (cs : List Char) :
    literals (c :: cs) = literals cs :=
  literals_append_cons hDigit [] cs

theorem literals_concat
    (hDigit : c.isDigit = false)
    (cs : List Char) :
    literals (cs ++ [c]) = literals cs :=
  (literals_append_cons hDigit cs []).trans
    (List.append_nil _)

theorem words_append_space
    (hSpace : CharClass.space.contains c = true)
    (cs ds : List Char) :
    words (cs ++ c :: ds) = words cs ++ words ds := by
  rcases char_of_space hSpace with ⟨hDigit, hSymbol⟩
  have hWord : word? (.glyph (.char c)) = none := by
    simp [word?, Glyph.toChar, hSymbol]
  rw [words, ofChars_append_cons hDigit,
    List.filterMap_append, List.filterMap_cons_none hWord]
  rfl

theorem ofChars_digits
    (hNonempty : cs ≠ [])
    (hDigits : ∀ c ∈ cs, c.isDigit = true) :
    ∃ first more,
      cs = first :: more ∧
        ofChars cs = [.digits first more] := by
  cases cs with
  | nil => exact absurd rfl hNonempty
  | cons first more =>
      exact ⟨first, more, rfl, ofGlyphs_digits hDigits⟩

/- A word was made of a lexeme between other characters. -/
theorem exists_lexeme_of_words
    {ws ws' : List Token}
    {w : Token}
    (hWords : words cs = ws ++ w :: ws') :
    ∃ l before own after,
      cs = before ++ (own ++ after) ∧
        own.map .char = l.glyphs ∧ l.IsProper ∧
        word? l = some w ∧ words before = ws ∧
        words after = ws' := by
  rcases List.filterMap_eq_append_iff.mp hWords with
    ⟨ls, rest, hLexemes, rfl, hRest⟩
  rcases List.filterMap_eq_cons_iff.mp hRest with
    ⟨skipped, l, ms, rfl, hSkipped, hWord, rfl⟩
  rw [← List.append_assoc] at hLexemes
  rcases ofGlyphs_eq_append_cons_iff.mp hLexemes with
    ⟨gs, hs, hGlyphs, hProper, _, _, hBefore, hAfter⟩
  rcases List.map_eq_append_iff.mp hGlyphs with
    ⟨before, inner, rfl, rfl, hInner⟩
  rcases List.map_eq_append_iff.mp hInner with
    ⟨own, after, rfl, hOwn, rfl⟩
  refine ⟨l, before, own, after, rfl, hOwn, hProper, hWord,
    ?_, ?_⟩
  · rw [words, ofChars, hBefore, List.filterMap_append,
      List.filterMap_eq_nil_iff.mpr hSkipped,
      List.append_nil]
  · rw [words, ofChars, hAfter]

theorem exists_split_of_words
    {ws ws' : List Token}
    {w : Token}
    (hWords : words cs = ws ++ w :: ws')
    (hSymbol : w.kind.symbol? = some c) :
    ∃ before after,
      cs = before ++ c :: after ∧
        words before = ws ∧ words after = ws' := by
  rcases exists_lexeme_of_words hWords with
    ⟨l, before, own, after, rfl, hOwn, _, hWord, hBefore,
      hAfter⟩
  cases l with
  | digits first more =>
      cases hWord
      cases hSymbol
  | glyph g =>
      rcases Option.map_eq_some_iff.mp hWord with
        ⟨kind, hKind, rfl⟩
      have hChar : g.toChar = c :=
        Option.some.inj
          ((TokenKind.symbol?_of_ofSymbol? hKind).symm.trans
            hSymbol)
      rcases List.map_eq_singleton_iff.mp hOwn with
        ⟨c', rfl, rfl⟩
      cases hChar
      exact ⟨before, after, rfl, hBefore, hAfter⟩

theorem exists_split_of_words_number
    {ws ws' : List Token}
    {w : Token}
    (hWords : words cs = ws ++ w :: ws')
    (hKind : w.kind = .number) :
    ∃ before digits after,
      cs = before ++ (digits ++ after) ∧ digits ≠ [] ∧
        (∀ c ∈ digits, c.isDigit = true) ∧
        w.value = UInt32.ofNat (Numeral.decimal digits) ∧
        words before = ws ∧ words after = ws' := by
  rcases exists_lexeme_of_words hWords with
    ⟨l, before, own, after, rfl, hOwn, hProper, hWord,
      hBefore, hAfter⟩
  cases l with
  | digits first more =>
      have hDigits : own = first :: more :=
        (List.map_inj_right fun _ _ => Glyph.char.inj).mp
          hOwn
      subst hDigits
      cases hWord
      exact ⟨before, first :: more, after, rfl,
        List.cons_ne_nil first more, hProper, rfl, hBefore,
        hAfter⟩
  | glyph g =>
      rcases Option.map_eq_some_iff.mp hWord with
        ⟨kind, hSymbol, rfl⟩
      have hNumber : kind = .number := hKind
      subst hNumber
      cases TokenKind.symbol?_of_ofSymbol? hSymbol

/- Nothing but white space is between words. -/
theorem space_of_words_eq_nil
    (hLexical : ∀ c ∈ cs, (Glyph.char c).IsLexical)
    (hWords : words cs = []) :
    ∀ c ∈ cs, CharClass.space.contains c = true := by
  intro c hMem
  have hGlyph :
      Glyph.char c ∈ (ofChars cs).flatMap glyphs := by
    rw [ofChars, flatMap_glyphs_ofGlyphs]
    exact List.mem_map_of_mem hMem
  rcases List.mem_flatMap.mp hGlyph with ⟨l, hLexeme, hOwn⟩
  have hWord := List.filterMap_eq_nil_iff.mp hWords l hLexeme
  have hProper := isProper_of_mem_ofGlyphs hLexeme
  cases l with
  | digits first more => cases hWord
  | glyph g =>
      cases List.mem_singleton.mp hOwn
      rcases hLexical c hMem with hSpace | hDigit | hSymbol
      · exact hSpace
      · rw [IsProper, hDigit] at hProper
        cases hProper
      · rcases TokenKind.exists_ofSymbol?_iff.mpr hSymbol with
          ⟨kind, hKind⟩
        simp [word?, hKind] at hWord

end Words

end Lexeme

------------------------------------------------------------
-- Exact Values of Trees
------------------------------------------------------------

/- An operation on integers; division is none. -/
def BinaryOp.exact? : BinaryOp → Option (Int → Int → Int)
| .add => some (· + ·)
| .sub => some (· - ·)
| .mul => some (· * ·)
| _ => none

namespace Expr

/-
  The value of a tree with given numbers in place of its
  own, and the numbers that are left over.
-/
def exact : Expr → List Nat → Option (Int × List Nat)
| .number _, n :: rest => some (n, rest)
| .unary .plus e, ns => e.exact ns
| .unary .minus e, ns => do
    let (x, rest) ← e.exact ns
    return (-x, rest)
| .binary op l r, ns => do
    let f ← op.exact?
    let (x, rest) ← l.exact ns
    let (y, rest) ← r.exact rest
    return (f x y, rest)
| _, _ => none

/- A tree has a value with exactly the given numbers. -/
def HasExact
    (e : Expr)
    (ns : List Nat)
    (x : Int) :
    Prop :=
  ∀ rest, e.exact (ns ++ rest) = some (x, rest)

theorem HasExact.binary
    {op : BinaryOp}
    {f : Int → Int → Int}
    {l r : Expr}
    {ns ms : List Nat}
    {x y : Int}
    (hOp : op.exact? = some f)
    (hLeft : l.HasExact ns x)
    (hRight : r.HasExact ms y) :
    (Expr.binary op l r).HasExact (ns ++ ms) (f x y) := by
  intro rest
  simp [exact, hOp, hLeft _, hRight _]

theorem HasExact.minus
    {e : Expr}
    {ns : List Nat}
    {x : Int}
    (hExact : e.HasExact ns x) :
    (Expr.unary .minus e).HasExact ns (-x) := by
  intro rest
  simp [exact, hExact _]

end Expr

------------------------------------------------------------
-- Denoted Integers Are Unique
------------------------------------------------------------

namespace Grammar

open Lexeme

/- The tokens of characters at no particular place. -/
def unplaced
    (cs : List Char) :
    List PlacedToken :=
  (words cs).map (PlacedToken.mk 0)

theorem unplaced_append_cons
    {c : Char}
    (kind : TokenKind)
    (hSymbol : kind.symbol? = some c)
    (cs ds : List Char) :
    unplaced (cs ++ c :: ds) =
      unplaced cs ++ ⟨0, .ofKind kind⟩ :: unplaced ds := by
  rw [unplaced, words_append_cons kind hSymbol cs ds,
    List.map_append, List.map_cons]
  rfl

theorem unplaced_cons
    {c : Char}
    (kind : TokenKind)
    (hSymbol : kind.symbol? = some c)
    (cs : List Char) :
    unplaced (c :: cs) =
      ⟨0, .ofKind kind⟩ :: unplaced cs :=
  unplaced_append_cons kind hSymbol [] cs

/-
  Characters that denote an integer derive, and their tree
  has that integer as value with the numbers as written.
-/
theorem Denotes.exists_derives
    {level : Level}
    {cs : List Char}
    {x : Int}
    (hDenotes : Denotes level cs x) :
    ∃ e,
      Derives level (unplaced cs) e ∧
        e.HasExact (literals cs) x := by
  induction hDenotes with
  | @spaceBefore level c cs x hSpace h ih =>
      have hWords : words (c :: cs) = words cs :=
        words_append_space hSpace [] cs
      rwa [unplaced, hWords,
        literals_cons (char_of_space hSpace).1]
  | @spaceAfter level c cs x hSpace h ih =>
      have hWords : words (cs ++ [c]) = words cs :=
        (words_append_space hSpace cs []).trans
          (List.append_nil _)
      rwa [unplaced, hWords,
        literals_concat (char_of_space hSpace).1]
  | ofProduct h ih =>
      rcases ih with ⟨e, hDerives, hExact⟩
      exact ⟨e, .ofProduct hDerives, hExact⟩
  | @add cs ds x y hLeft hRight ihLeft ihRight =>
      rcases ihLeft with ⟨l, hLeft, hLeftExact⟩
      rcases ihRight with ⟨r, hRight, hRightExact⟩
      rw [unplaced_append_cons .plus rfl,
        literals_append_cons rfl]
      exact ⟨.binary .add l r, .sum hLeft rfl hRight,
        .binary rfl hLeftExact hRightExact⟩
  | @sub cs ds x y hLeft hRight ihLeft ihRight =>
      rcases ihLeft with ⟨l, hLeft, hLeftExact⟩
      rcases ihRight with ⟨r, hRight, hRightExact⟩
      rw [unplaced_append_cons .minus rfl,
        literals_append_cons rfl]
      exact ⟨.binary .sub l r, .sum hLeft rfl hRight,
        .binary rfl hLeftExact hRightExact⟩
  | ofFactor h ih =>
      rcases ih with ⟨e, hDerives, hExact⟩
      exact ⟨e, .ofFactor hDerives, hExact⟩
  | @mul cs ds x y hLeft hRight ihLeft ihRight =>
      rcases ihLeft with ⟨l, hLeft, hLeftExact⟩
      rcases ihRight with ⟨r, hRight, hRightExact⟩
      rw [unplaced_append_cons .asterisk rfl,
        literals_append_cons rfl]
      exact ⟨.binary .mul l r, .product hLeft rfl hRight,
        .binary rfl hLeftExact hRightExact⟩
  | ofPrimary h ih =>
      rcases ih with ⟨e, hDerives, hExact⟩
      exact ⟨e, .ofPrimary hDerives, hExact⟩
  | @plus cs x h ih =>
      rcases ih with ⟨e, hDerives, hExact⟩
      rw [unplaced_cons .plus rfl, literals_cons rfl]
      exact ⟨.unary .plus e, .signed rfl hDerives, hExact⟩
  | @minus cs x h ih =>
      rcases ih with ⟨e, hDerives, hExact⟩
      rw [unplaced_cons .minus rfl, literals_cons rfl]
      exact ⟨.unary .minus e, .signed rfl hDerives,
        hExact.minus⟩
  | @number digits hNonempty hDigits =>
      rcases ofChars_digits hNonempty hDigits with
        ⟨first, more, rfl, hLexemes⟩
      rw [unplaced, words, literals, hLexemes]
      exact ⟨_, .number rfl, fun rest => rfl⟩
  | @group cs x h ih =>
      rcases ih with ⟨e, hDerives, hExact⟩
      rw [unplaced_cons .openParen rfl,
        unplaced_append_cons .closeParen rfl,
        literals_cons rfl, literals_concat rfl]
      exact ⟨e, .group rfl hDerives rfl, hExact⟩

theorem Denotes.unique
    {cs : List Char}
    {x y : Int}
    (hFirst : Denotes .sum cs x)
    (hSecond : Denotes .sum cs y) :
    x = y := by
  rcases hFirst.exists_derives with ⟨e, hTree, hValue⟩
  rcases hSecond.exists_derives with ⟨e', hTree', hValue'⟩
  cases hTree.unique hTree'
  have hSame := (hValue []).symm.trans (hValue' [])
  cases hSame
  rfl

end Grammar

end ExprCompiler
