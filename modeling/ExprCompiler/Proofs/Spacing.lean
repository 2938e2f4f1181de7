import ExprCompiler.Proofs.Compiling
import ExprCompiler.Proofs.Concatenation

/-
  White space between tokens only moves what follows it.

  Key definitions include:
    * `ParseError.relocate`
    * `Reading.relocate`
    * `movedBehind`
    * `Moved`

  Main declarations:
    * `Parser.read_relocate`
    * `Expr.parse_relocate`
    * `lex_insert_space`
    * `Moved.compile_eq_ok`
    * `Moved.compile_eq_error`
    * `compile_insert_space`

  The parser passes offsets on and never looks at them, so
  tokens that are moved have the same tree, or an error that
  is moved with them.
-/

------------------------------------------------------------
-- Parsing Moved Tokens
------------------------------------------------------------

namespace ExprCompiler

/- Changes the offset of an error. -/
def ParseError.relocate
    (f : Int → Int)
    (e : ParseError) :
    ParseError :=
  { e with offset := f e.offset }

theorem ParseError.ofFound_relocate
    (f : Int → Int)
    (limit : Int)
    (expected : Expectation)
    (found : Option PlacedToken) :
    ofFound (f limit) expected (found.map (.relocate f)) =
      (ofFound limit expected found).relocate f := by
  cases found <;> rfl

/- Changes the offsets of an error and the tokens left. -/
def Reading.relocate
    (f : Int → Int) :
    Reading → Reading
| .tree e rest => .tree e (rest.map (.relocate f))
| .stuck e rest =>
    .stuck (e.relocate f) (rest.map (.relocate f))

namespace Parser

theorem finish_relocate
    (f : Int → Int)
    (limit : Int)
    (outer : List Pending)
    (e : Expr)
    (rest : List PlacedToken) :
    finish (f limit) outer e (rest.map (.relocate f)) =
      (finish limit outer e rest).relocate f := by
  cases outer with
  | nil => rfl
  | cons q outer =>
      rw [finish, finish, List.head?_map,
        ParseError.ofFound_relocate]
      rfl

/-
  Tokens are told apart by their kinds, and a moved token is
  of the same kind. The induction is on the tokens ahead.
-/
theorem operand_operator_relocate
    (f : Int → Int)
    (limit : Int)
    (ts : List PlacedToken) :
    (∀ outer p,
        operand (f limit) outer p (ts.map (.relocate f)) =
          (operand limit outer p ts).relocate f) ∧
      ∀ outer p x,
        operator (f limit) outer p x
            (ts.map (.relocate f)) =
          (operator limit outer p x ts).relocate f := by
  induction ts with
  | nil =>
      constructor
      · intro outer p
        simp only [List.map_nil, operand]
        rfl
      · intro outer p x
        simp only [List.map_nil, operator]
        exact finish_relocate f limit outer _ []
  | cons t ts ih =>
      have hToken : (t.relocate f).token = t.token := rfl
      constructor
      · intro outer p
        simp only [List.map_cons, operand, hToken]
        split
        · exact ih.2 _ _ _
        · exact ih.1 _ _
        · exact ih.1 _ _
        · exact ih.1 _ _
        · rfl
      · intro outer p x
        simp only [List.map_cons, operator, hToken]
        split
        · exact ih.1 _ _
        · exact ih.1 _ _
        · exact ih.1 _ _
        · exact ih.1 _ _
        · exact ih.2 _ _ _
        · exact finish_relocate f limit _ _ (t :: ts)

theorem read_relocate
    (f : Int → Int)
    (limit : Int)
    (ts : List PlacedToken) :
    read (f limit) (ts.map (.relocate f)) =
      (read limit ts).relocate f :=
  (operand_operator_relocate f limit ts).1 [] {}

end Parser

/- Moved tokens have the same tree or a moved error. -/
theorem Expr.parse_relocate
    (f : Int → Int)
    (limit : Int)
    (ts : List PlacedToken) :
    parse (f limit) (ts.map (.relocate f)) =
      (parse limit ts).mapError (.relocate f) := by
  simp only [parse, Cursor.expr, Parser.read_relocate]
  cases Parser.read limit ts with
  | stuck e rest => rfl
  | tree e rest =>
      cases rest with
      | nil => rfl
      | cons t rest => rfl

------------------------------------------------------------
-- Lexing with More White Space
------------------------------------------------------------

/- Where an offset is after bytes are put in at a place. -/
def movedBehind
    (place count : Nat)
    (offset : Int) :
    Int :=
  if place ≤ offset then offset + count else offset

section Insertion

variable {a b : Text} {w : Char}

/- White space moves the tokens and the errors behind it. -/
theorem lex_insert_space
    (policy : OverflowPolicy)
    (hSeam : a.Seam b)
    (hSpace : CharClass.space.contains w = true) :
    lex policy (a ++ (String.utf8EncodeChar w ++ b)) =
      relocateLexed (movedBehind a.length w.utf8Size)
        (lex policy (a ++ b)) := by
  have hDigit := (Lexeme.char_of_space hSpace).1
  have hBehind :
      lex policy (String.utf8EncodeChar w ++ b) =
        relocateLexed (· + w.utf8Size) (lex policy b) := by
    rw [lex_append policy (Text.seam_char_left hDigit b),
      lex_space policy hSpace,
      String.length_utf8EncodeChar]
    cases lex policy b <;> rfl
  have hBefore :
      relocateLexed (movedBehind a.length w.utf8Size)
          (lex policy a) =
        lex policy a := by
    rw [relocateLexed_congr (g := id), relocateLexed_id]
    intro n _ hLess
    exact if_neg (Int.not_le.mpr hLess)
  have hAfter :
      relocateLexed
          (movedBehind a.length w.utf8Size ∘ (· + a.length))
          (lex policy b) =
        relocateLexed ((· + a.length) ∘ (· + w.utf8Size))
          (lex policy b) := by
    apply relocateLexed_congr
    intro n hFrom _
    simp only [Function.comp_apply, movedBehind]
    rw [if_pos (by omega)]
    omega
  rw [lex_append policy (Text.seam_char_right hDigit a b),
    lex_append policy hSeam, hBehind,
    relocateLexed_relocateLexed, relocateLexed_append,
    relocateLexed_relocateLexed, hBefore, hAfter]

end Insertion

------------------------------------------------------------
-- Compiling Moved Tokens
------------------------------------------------------------

/- Changes the place of a failure that has one. -/
def Failure.relocate
    (f : Int → Int)
    (failure : Failure) :
    Failure :=
  match failure.cause with
  | .lex e => { failure with cause := .lex (e.relocate f) }
  | .parse e =>
      { failure with cause := .parse (e.relocate f) }
  | _ => failure

/- Two lines have the same tokens, but at other places. -/
structure Moved
    (policy : OverflowPolicy)
    (f : Int → Int)
    (line line' : Text) :
    Prop where
  lex :
    lex policy line' = relocateLexed f (lex policy line)
  length : line'.length = f line.length

namespace Moved

variable {policy : OverflowPolicy} {f : Int → Int}
variable {line line' : Text}

/- A line with moved tokens has the same program. -/
theorem compile_eq_ok
    (hMoved : Moved policy f line line')
    {c : Compilation}
    (hCompile : (compile policy line).1 = .ok c) :
    (compile policy line').1 =
      .ok ⟨line', c.tokens.map (.relocate f), c.tree,
        c.program⟩ := by
  rcases compile_eq_ok_iff.mp hCompile with
    ⟨ts, e, p, hTokens, hParse, hCode, rfl⟩
  refine compile_eq_ok_iff.mpr
    ⟨_, e, p, ?_, ?_, hCode, rfl⟩
  · rw [hMoved.lex, hTokens]
    rfl
  · rw [hMoved.length, Expr.parse_relocate, hParse]
    rfl

/- A line with moved tokens fails at the moved place. -/
theorem compile_eq_error
    (hMoved : Moved policy f line line')
    {failure : Failure}
    (hCompile :
      (compile policy line).1 = .error failure) :
    (compile policy line').1 =
      .error (failure.relocate f) := by
  rcases compile_eq_error_iff.mp hCompile with
    ⟨e, hError, rfl⟩ | ⟨ts, e, hTokens, hParse, rfl⟩
  · refine compile_eq_error_iff.mpr (.inl ⟨_, ?_, rfl⟩)
    rw [hMoved.lex, hError]
    rfl
  · refine compile_eq_error_iff.mpr
      (.inr ⟨ts.map (.relocate f), _, ?_, ?_, rfl⟩)
    · rw [hMoved.lex, hTokens]
      rfl
    · rw [hMoved.length, Expr.parse_relocate, hParse]
      rfl

theorem exists_compile_eq_ok_iff
    (hMoved : Moved policy f line line') :
    (∃ c, (compile policy line').1 = .ok c) ↔
      ∃ c, (compile policy line).1 = .ok c := by
  constructor
  · rintro ⟨c', hCompile'⟩
    cases hCompile : (compile policy line).1 with
    | ok c => exact ⟨c, rfl⟩
    | error failure =>
        rw [hMoved.compile_eq_error hCompile] at hCompile'
        cases hCompile'
  · rintro ⟨c, hCompile⟩
    exact ⟨_, hMoved.compile_eq_ok hCompile⟩

end Moved

------------------------------------------------------------
-- Compiling with More White Space
------------------------------------------------------------

/-
  White space can be put in wherever it cuts no character
  and no number. The line then compiles if and only if it
  did, with the same tokens, tree and program, and else
  fails for the same reason. Offsets from the place of the
  white space on are moved by its length; others stay.
-/
theorem compile_insert_space
    (policy : OverflowPolicy)
    {a b : Text}
    {w : Char}
    (hHead :
      ∀ y ∈ b.head?, Glyph.isContinuation y = false)
    (hDigits :
      ∀ x ∈ a.getLast?, ∀ y ∈ b.head?,
        ¬ (Text.isDigit x = true ∧ Text.isDigit y = true))
    (hSpace : CharClass.space.contains w = true) :
    let spaced := a ++ String.utf8EncodeChar w ++ b
    let moved := movedBehind a.length w.utf8Size
    ((∃ c, (compile policy spaced).1 = .ok c) ↔
        ∃ c, (compile policy (a ++ b)).1 = .ok c) ∧
      (∀ c, (compile policy (a ++ b)).1 = .ok c →
        ∃ c', (compile policy spaced).1 = .ok c' ∧
          c'.tokens.map (·.token) =
            c.tokens.map (·.token) ∧
          c'.tokens.map (·.offset) =
            c.tokens.map (moved ·.offset) ∧
          c'.tree = c.tree ∧ c'.program = c.program) ∧
      ∀ f, (compile policy (a ++ b)).1 = .error f →
        ∃ f', (compile policy spaced).1 = .error f' ∧
          f'.contexts = f.contexts ∧
          ((∃ e e', f.cause = .lex e ∧ f'.cause = .lex e' ∧
              e'.char = e.char ∧ e'.reason = e.reason ∧
              e'.offset = moved e.offset) ∨
            (∃ e e', f.cause = .parse e ∧
              f'.cause = .parse e' ∧
              e'.expected = e.expected ∧
              e'.found = e.found ∧
              e'.offset = moved e.offset)) := by
  intro spaced moved
  have hMoved : Moved policy moved (a ++ b) spaced := by
    constructor
    · rw [← lex_insert_space policy
        (Text.seam_of_bytes hHead hDigits) hSpace,
        ← List.append_assoc]
    · simp only [spaced, moved, movedBehind,
        List.length_append, String.length_utf8EncodeChar]
      rw [if_pos (by omega)]
      omega
  refine ⟨hMoved.exists_compile_eq_ok_iff, ?_, ?_⟩
  · intro c hCompile
    refine ⟨_, hMoved.compile_eq_ok hCompile, ?_, ?_, rfl,
      rfl⟩
    · rw [List.map_map]
      rfl
    · rw [List.map_map]
      rfl
  · intro f hCompile
    refine ⟨_, hMoved.compile_eq_error hCompile, ?_⟩
    rcases compile_eq_error_iff.mp hCompile with
      ⟨e, _, rfl⟩ | ⟨ts, e, _, _, rfl⟩
    · exact ⟨rfl,
        .inl ⟨e, e.relocate moved, rfl, rfl, rfl, rfl, rfl⟩⟩
    · exact ⟨rfl,
        .inr ⟨e, e.relocate moved, rfl, rfl, rfl, rfl, rfl⟩⟩

/-
  A wide space, which has three bytes, moves the number that
  is too wide from the third byte to the sixth.
-/
theorem compile_insert_wide_space :
    let a := Text.ofString "4*"
    let b := Text.ofString "99999999999"
    let digits := List.replicate 11 '9'
    (compile .check (a ++ b)).1 =
        .error ⟨.lex ⟨2, 0x39, .overflow digits⟩,
          [.stage .lex]⟩ ∧
      ∃ f e,
        (compile .check
            (a ++ String.utf8EncodeChar '\u3000' ++ b)).1 =
          .error f ∧
          f.cause = .lex e ∧ e.offset = 5 ∧
          e.char = 0x39 ∧ e.reason = .overflow digits := by
  intro a b digits
  have hCompile :
      (compile .check (a ++ b)).1 =
        .error ⟨.lex ⟨2, 0x39, .overflow digits⟩,
          [.stage .lex]⟩ := by
    decide +kernel
  rcases compile_insert_space .check
      (a := a) (b := b) (w := '\u3000')
      (by decide +kernel) (by decide +kernel) (by decide) with
    ⟨_, _, hError⟩
  rcases hError _ hCompile with
    ⟨f, hSpaced, _,
      ⟨e, e', hCause, hCause', hChar, hReason, hOffset⟩ |
        ⟨e, e', hCause, _⟩⟩
  · cases hCause
    exact ⟨hCompile, f, e', hSpaced, hCause', hOffset,
      hChar, hReason⟩
  · cases hCause

end ExprCompiler
