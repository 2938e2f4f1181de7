import ExprCompiler.Proofs.CodeCorrectness
import ExprCompiler.Proofs.Compiling
import ExprCompiler.Proofs.Denotation
import ExprCompiler.Proofs.Numbers
import Mathlib.Data.Int.ModEq

/-
  Compiled lines without a division are evaluated modulo
  2 ^ 32.

  Main declarations:
    * `Lexeme.map_token_of_tokens`
    * `Grammar.Derives.exists_denotes`
    * `emit_value_congruent`

  Every number, every intermediate result and the value
  itself are cut down to 32 bits. All of this comes to the
  same as cutting down the exact integer once.
-/

------------------------------------------------------------
-- Values of Derived Trees
------------------------------------------------------------

namespace ExprCompiler

/- Cutting down to 32 bits goes along with operations. -/
theorem BinaryOp.apply_ofInt
    {op : BinaryOp}
    {f : Int → Int → Int}
    (hOp : op.exact? = some f)
    (x y : Int) :
    op.apply (Int32.ofInt x) (Int32.ofInt y) =
      .ok (Int32.ofInt (f x y)) := by
  cases op with
  | add =>
      cases hOp
      rw [Int32.ofInt_add, apply]
  | sub =>
      cases hOp
      rw [Int32.ofInt_sub, apply]
  | mul =>
      cases hOp
      rw [Int32.ofInt_mul, apply]
  | div => cases hOp
  | unknown s h => cases hOp

namespace Expr

theorem eval_number_ofNat
    (n : Nat) :
    (number (UInt32.ofNat n)).eval =
      .ok (Int32.ofInt n) := by
  rw [eval, UInt32.toInt32_ofNat', Int32.ofInt_eq_ofNat]

theorem eval_minus_ofInt
    {e : Expr}
    {x : Int}
    (hEval : e.eval = .ok (Int32.ofInt x)) :
    (unary .minus e).eval = .ok (Int32.ofInt (-x)) := by
  rw [Int32.ofInt_neg]
  exact eval_unary_eq_ok_iff.mpr ⟨_, hEval, rfl⟩

theorem eval_binary_ofInt
    {op : BinaryOp}
    {f : Int → Int → Int}
    {l r : Expr}
    {x y : Int}
    (hOp : op.exact? = some f)
    (hLeft : l.eval = .ok (Int32.ofInt x))
    (hRight : r.eval = .ok (Int32.ofInt y)) :
    (binary op l r).eval = .ok (Int32.ofInt (f x y)) :=
  eval_binary_eq_ok_iff.mpr
    ⟨_, hLeft, _, hRight, op.apply_ofInt hOp x y⟩

end Expr

namespace Grammar

open Lexeme

/- Digits, operators and white space, but no division. -/
def IsUndivided
    (cs : List Char) :
    Prop :=
  ∀ c ∈ cs, (Glyph.char c).IsLexical ∧ c ≠ '/'

theorem IsUndivided.space
    {cs : List Char}
    (hChars : IsUndivided cs)
    (hWords : words cs = []) :
    ∀ c ∈ cs, CharClass.space.contains c = true :=
  space_of_words_eq_nil (fun c hMem => (hChars c hMem).1)
    hWords

/- Characters are cut at the symbol of one of their words. -/
theorem IsUndivided.split
    {cs : List Char}
    {ws ws' : List Token}
    {w : Token}
    {kind : TokenKind}
    {c : Char}
    (hChars : IsUndivided cs)
    (hWords : words cs = ws ++ w :: ws')
    (hKind : w.kind = kind)
    (hSymbol : kind.symbol? = some c) :
    ∃ before after,
      cs = before ++ c :: after ∧ c ≠ '/' ∧
        (IsUndivided before ∧ words before = ws) ∧
        IsUndivided after ∧ words after = ws' := by
  subst hKind
  rcases exists_split_of_words hWords hSymbol with
    ⟨before, after, rfl, hBefore, hAfter⟩
  rcases List.forall_mem_append.mp hChars with
    ⟨hLeft, hRest⟩
  rcases List.forall_mem_cons.mp hRest with ⟨hOwn, hRight⟩
  exact ⟨before, after, rfl, hOwn.2, ⟨hLeft, hBefore⟩,
    hRight, hAfter⟩

/- What the operands around a symbol come to. -/
theorem IsUndivided.operands
    {cs : List Char}
    {ws ws' : List Token}
    {w : Token}
    {kind : TokenKind}
    {c : Char}
    {P Q : List Char → Int → Prop}
    (hChars : IsUndivided cs)
    (hWords : words cs = ws ++ w :: ws')
    (hKind : w.kind = kind)
    (hSymbol : kind.symbol? = some c)
    (hLeft :
      ∀ ds, IsUndivided ds → words ds = ws → ∃ x, P ds x)
    (hRight :
      ∀ ds, IsUndivided ds → words ds = ws' → ∃ y, Q ds y) :
    ∃ before after x y,
      cs = before ++ c :: after ∧ P before x ∧
        Q after y := by
  rcases hChars.split hWords hKind hSymbol with
    ⟨before, after, hSplit, _, ⟨hBefore, hBeforeWords⟩,
      hAfter, hAfterWords⟩
  rcases hLeft before hBefore hBeforeWords with ⟨x, hX⟩
  rcases hRight after hAfter hAfterWords with ⟨y, hY⟩
  exact ⟨before, after, x, y, hSplit, hX, hY⟩

/-
  The characters of a derivation denote an integer, and the
  value of the tree is the integer's lowest 32 bits.
-/
theorem Derives.exists_denotes
    {level : Level}
    {ts : List PlacedToken}
    {e : Expr}
    (hDerives : Derives level ts e)
    {cs : List Char}
    (hChars : IsUndivided cs)
    (hWords : words cs = ts.map (·.token)) :
    ∃ x,
      Denotes level cs x ∧ e.eval = .ok (Int32.ofInt x) := by
  induction hDerives generalizing cs with
  | ofProduct h ih =>
      rcases ih hChars hWords with ⟨x, hDenotes, hEval⟩
      exact ⟨x, .ofProduct hDenotes, hEval⟩
  | @sum ts us t op l r hLeft hOp hRight ihLeft ihRight =>
      rw [List.map_append, List.map_cons] at hWords
      rcases TokenKind.sumOp?_eq_some_iff.mp hOp with
        ⟨hKind, rfl⟩ | ⟨hKind, rfl⟩
      · rcases hChars.operands hWords hKind rfl
            (fun _ => ihLeft) (fun _ => ihRight) with
          ⟨before, after, x, y, rfl, ⟨hDenotes, hEval⟩,
            hDenotes', hEval'⟩
        exact ⟨x + y, .add hDenotes hDenotes',
          Expr.eval_binary_ofInt rfl hEval hEval'⟩
      · rcases hChars.operands hWords hKind rfl
            (fun _ => ihLeft) (fun _ => ihRight) with
          ⟨before, after, x, y, rfl, ⟨hDenotes, hEval⟩,
            hDenotes', hEval'⟩
        exact ⟨x - y, .sub hDenotes hDenotes',
          Expr.eval_binary_ofInt rfl hEval hEval'⟩
  | ofFactor h ih =>
      rcases ih hChars hWords with ⟨x, hDenotes, hEval⟩
      exact ⟨x, .ofFactor hDenotes, hEval⟩
  | @product ts us t op l r hLeft hOp hRight ihLeft
      ihRight =>
      rw [List.map_append, List.map_cons] at hWords
      rcases TokenKind.productOp?_eq_some_iff.mp hOp with
        ⟨hKind, rfl⟩ | ⟨hKind, rfl⟩
      · rcases hChars.operands hWords hKind rfl
            (fun _ => ihLeft) (fun _ => ihRight) with
          ⟨before, after, x, y, rfl, ⟨hDenotes, hEval⟩,
            hDenotes', hEval'⟩
        exact ⟨x * y, .mul hDenotes hDenotes',
          Expr.eval_binary_ofInt rfl hEval hEval'⟩
      · rcases hChars.split hWords hKind rfl with
          ⟨_, _, _, hOther, _⟩
        exact absurd rfl hOther
  | ofPrimary h ih =>
      rcases ih hChars hWords with ⟨x, hDenotes, hEval⟩
      exact ⟨x, .ofPrimary hDenotes, hEval⟩
  | @signed t ts op e hSign h ih =>
      rw [List.map_cons, ← List.nil_append (_ :: _)]
        at hWords
      rcases TokenKind.sign?_eq_some_iff.mp hSign with
        ⟨hKind, rfl⟩ | ⟨hKind, rfl⟩
      · rcases hChars.split hWords hKind rfl with
          ⟨before, after, rfl, _, hBefore, hAfter⟩
        rcases ih hAfter.1 hAfter.2 with
          ⟨x, hDenotes, hEval⟩
        refine ⟨x, ?_,
          Expr.eval_unary_eq_ok_iff.mpr ⟨_, hEval, rfl⟩⟩
        exact hDenotes.plus.spacesBefore
          (hBefore.1.space hBefore.2)
      · rcases hChars.split hWords hKind rfl with
          ⟨before, after, rfl, _, hBefore, hAfter⟩
        rcases ih hAfter.1 hAfter.2 with
          ⟨x, hDenotes, hEval⟩
        refine ⟨-x, ?_, Expr.eval_minus_ofInt hEval⟩
        exact hDenotes.minus.spacesBefore
          (hBefore.1.space hBefore.2)
  | @number t hKind =>
      rw [List.map_singleton, ← List.nil_append [t.token]]
        at hWords
      rcases exists_split_of_words_number hWords hKind with
        ⟨before, digits, after, rfl, hNonempty, hDigits,
          hValue, hBefore, hAfter⟩
      rcases List.forall_mem_append.mp hChars with
        ⟨hLeft, hRest⟩
      have hRight := (List.forall_mem_append.mp hRest).2
      have hSpaceBefore := IsUndivided.space hLeft hBefore
      have hSpaceAfter := IsUndivided.space hRight hAfter
      refine ⟨Numeral.decimal digits, ?_, ?_⟩
      · exact (Denotes.number hNonempty hDigits).spacesAfter
          hSpaceAfter |>.spacesBefore hSpaceBefore
      · rw [hValue]
        exact Expr.eval_number_ofNat _
  | @group first last ts e hOpen h hClose ih =>
      -- Both parentheses are found among the words; around
      -- them there is nothing but white space.
      rw [List.cons_append, List.map_cons,
        ← List.nil_append (_ :: _)] at hWords
      rcases hChars.split hWords hOpen rfl with
        ⟨before, rest, rfl, _, hBefore, hRest, hInner⟩
      rw [List.map_append, List.map_singleton] at hInner
      rcases hRest.split hInner hClose rfl with
        ⟨inner, after, rfl, _, hInner, hAfter⟩
      rcases ih hInner.1 hInner.2 with ⟨x, hDenotes, hEval⟩
      refine ⟨x, ?_, hEval⟩
      have hGroup := hDenotes.group.spacesAfter
        (hAfter.1.space hAfter.2)
      have hAll := hGroup.spacesBefore
        (hBefore.1.space hBefore.2)
      simpa using hAll

end Grammar

------------------------------------------------------------
-- Words of Lines
------------------------------------------------------------

namespace Lexeme

variable {policy : OverflowPolicy} {offset : Nat}

theorem map_token_of_token?
    {l : Lexeme}
    {t : Option PlacedToken}
    (hToken : l.token? policy offset = .ok t) :
    t.map (·.token) = word? l := by
  cases l with
  | digits first more =>
      rw [eq_of_token?_digits hToken]
      rfl
  | glyph g =>
      cases t with
      | none =>
          have hSpace := token?_glyph_eq_none_iff.mp hToken
          simp [word?, (char_of_space hSpace).2]
      | some t =>
          rcases token?_glyph_eq_some_iff.mp hToken with
            ⟨kind, hSymbol, rfl⟩
          simp [word?, TokenKind.ofSymbol?_of_symbol? hSymbol]

theorem map_token_of_tokens
    {ls : List Lexeme}
    {ts : List PlacedToken}
    (hTokens : tokens policy offset ls = .ok ts) :
    ts.map (·.token) = ls.filterMap word? := by
  induction ls generalizing offset ts with
  | nil =>
      cases hTokens
      rfl
  | cons l ls ih =>
      rcases tokens_cons_eq_ok_iff.mp hTokens with
        ⟨t, us, hFirst, hRest, rfl⟩
      have hWord := map_token_of_token? hFirst
      cases t with
      | none =>
          rw [List.filterMap_cons_none hWord.symm]
          exact ih hRest
      | some t =>
          rw [List.filterMap_cons_some hWord.symm,
            ← ih hRest]
          rfl

end Lexeme

/- A glyph that can be part of a token is no stray byte. -/
theorem Glyph.char_toChar_of_isLexical
    {g : Glyph}
    (hLexical : g.IsLexical) :
    .char g.toChar = g := by
  cases g with
  | char c => rfl
  | stray b =>
      rcases hLexical with hSpace | hDigit | hSymbol
      · cases hSpace
      · cases hDigit
      · simp [toChar] at hSymbol

/- A line with tokens is a string with the tokens' words. -/
theorem exists_string_of_lex
    {policy : OverflowPolicy}
    {line : Text}
    {ts : List PlacedToken}
    (hLex : lex policy line = .ok ts) :
    ∃ s : String,
      line = Text.ofString s ∧
        (∀ c ∈ s.toList, (Glyph.char c).IsLexical) ∧
        Lexeme.words s.toList = ts.map (·.token) := by
  rw [Lexeme.lex_eq_tokens] at hLex
  have hLexical : ∀ g ∈ line.glyphs, g.IsLexical :=
    fun g => Lexeme.isLexical_of_tokens hLex
  have hGlyphs :
      (line.glyphs.map Glyph.toChar).map .char =
        line.glyphs := by
    have hSame :
        ∀ g ∈ line.glyphs,
          (Glyph.char ∘ Glyph.toChar) g = id g :=
      fun g hMem =>
        Glyph.char_toChar_of_isLexical (hLexical g hMem)
    rw [List.map_map, List.map_congr_left hSame,
      List.map_id]
  refine ⟨String.ofList (line.glyphs.map Glyph.toChar), ?_,
    ?_, ?_⟩
  · calc
      line = line.glyphs.flatMap Glyph.bytes :=
        (Text.flatMap_bytes_glyphs line).symm
      _ = ((line.glyphs.map Glyph.toChar).map
            .char).flatMap Glyph.bytes := by
        rw [hGlyphs]
      _ = Text.ofString
            (String.ofList
              (line.glyphs.map Glyph.toChar)) := by
        rw [Text.ofString, String.toList_ofList,
          List.flatMap_map]
        rfl
  · rw [String.toList_ofList]
    intro c hMem
    rw [← hGlyphs] at hLexical
    exact hLexical _ (List.mem_map_of_mem hMem)
  · rw [String.toList_ofList, Lexeme.words, Lexeme.ofChars,
      hGlyphs, Lexeme.map_token_of_tokens hLex]
    rfl

------------------------------------------------------------
-- Compiled Lines
------------------------------------------------------------

/- The value of a line is put out, with a line feed. -/
theorem emit_eval_of_run
    {policy : OverflowPolicy}
    {line : Text}
    {c : Compilation}
    {sink : Sink}
    {v : Int32}
    (hCompile : (compile policy line).1 = .ok c)
    (hRun : c.program.run = .ok v)
    (hRoom : sink.room ≠ some 0) :
    (emit ⟨.eval, policy⟩ line sink).outcome = .ok () ∧
      (emit ⟨.eval, policy⟩ line sink).sink.output =
        sink.output ++ (toString v.toInt ++ "\n") := by
  rcases emit_of_compile_eq_ok hCompile .eval sink with
    ⟨hOutcome, hSink⟩
  rw [hOutcome, hSink]
  simp only [Compilation.emit, Compilation.emitValue, hRun]
  exact Sink.write_of_room hRoom
    (toString v.toInt ++ "\n")

/- The lowest 32 bits of an integer, read with their sign. -/
theorem eq_toInt_ofInt_iff
    {w x : Int} :
    -2 ^ 31 ≤ w ∧ w < 2 ^ 31 ∧ w ≡ x [ZMOD 2 ^ 32] ↔
      w = (Int32.ofInt x).toInt := by
  rw [Int32.toInt_ofInt]
  have hCongruent :
      x.bmod Int32.size % 2 ^ 32 = x % 2 ^ 32 :=
    Int.bmod_emod
  have hLeast : -2 ^ 31 ≤ x.bmod Int32.size :=
    Int.le_bmod (by decide)
  have hLess : x.bmod Int32.size < 2 ^ 31 :=
    Int.bmod_lt (by decide)
  unfold Int.ModEq
  constructor
  · rintro ⟨hFrom, hTo, hModulo⟩
    omega
  · rintro rfl
    exact ⟨hLeast, hLess, hCongruent⟩

/-
  A compiled line without a slash, whose byte is 0x2F, is a
  string that denotes one integer, and the value put out for
  it is the one 32-bit integer congruent to that, whatever
  the policy.
-/
theorem emit_value_congruent
    {policy : OverflowPolicy}
    {line : Text}
    {c : Compilation}
    {sink : Sink}
    (hDivision : 0x2F ∉ line)
    (hCompile : (compile policy line).1 = .ok c)
    (hRoom : sink.room ≠ some 0) :
    ∃ s x v,
      line = Text.ofString s ∧
        (∀ y, Grammar.Denotes .sum s.toList y ↔ y = x) ∧
        (∀ w, -2 ^ 31 ≤ w ∧ w < 2 ^ 31 ∧
            w ≡ x [ZMOD 2 ^ 32] ↔ w = v) ∧
        (emit ⟨.eval, policy⟩ line sink).outcome = .ok () ∧
        (emit ⟨.eval, policy⟩ line sink).sink.output =
          sink.output ++ (toString v ++ "\n") := by
  rcases compile_eq_ok_iff.mp hCompile with
    ⟨ts, e, p, hLex, hParse, hCode, rfl⟩
  rcases exists_string_of_lex hLex with
    ⟨s, rfl, hLexical, hWords⟩
  have hChars : Grammar.IsUndivided s.toList := by
    intro c hMem
    refine ⟨hLexical c hMem, ?_⟩
    rintro rfl
    exact hDivision
      (List.mem_flatMap.mpr ⟨'/', hMem, by decide⟩)
  rcases Parser.derives_of_read_eq_tree
      (Expr.parse_eq_ok_iff.mp hParse) with
    ⟨us, hTokens, hDerives⟩
  rw [List.append_nil] at hTokens
  subst hTokens
  rcases hDerives.exists_denotes hChars hWords with
    ⟨x, hDenotes, hEval⟩
  have hRun := Expr.run_code_of_eval_eq_ok hCode hEval
  refine ⟨s, x, (Int32.ofInt x).toInt, rfl, ?_,
    fun w => eq_toInt_ofInt_iff,
    emit_eval_of_run hCompile hRun hRoom⟩
  intro y
  constructor
  · intro hOther
    exact hOther.unique hDenotes
  · rintro rfl
    exact hDenotes

/-
  Literals that are too wide count with their low bits: the
  product of 2 ^ 32 + 3 and four is twelve.
-/
theorem emit_value_of_wide_product :
    let line := Text.ofString "-4294967299 * (3 - 7)"
    let emitted := emit ⟨.eval, .wrap⟩ line {}
    0x2F ∉ line ∧ (compile .wrap line).1.isOk = true ∧
      emitted.outcome = .ok () ∧
      emitted.sink.output = "12\n" ∧
      ∃ s x,
        line = Text.ofString s ∧
          (∀ y, Grammar.Denotes .sum s.toList y ↔ y = x) ∧
          12 ≡ x [ZMOD 2 ^ 32] := by
  intro line emitted
  have hDivision : 0x2F ∉ line := by
    decide +kernel
  have hOk : (compile .wrap line).1.isOk = true := by
    decide +kernel
  have hRoom : ({} : Sink).room ≠ some 0 := by
    decide
  have hText : emitted.sink.output = "12\n" := by
    decide +kernel
  refine ⟨hDivision, hOk, ?_⟩
  cases hCompile : (compile .wrap line).1 with
  | error f =>
      rw [hCompile] at hOk
      cases hOk
  | ok c =>
      rcases emit_value_congruent hDivision hCompile
          hRoom with
        ⟨s, x, v, hLine, hDenotes, hValue, hOutcome,
          hOutput⟩
      have hWritten : v.repr = (12 : Int).repr :=
        (String.append_left_inj "\n").mp
          (hOutput.symm.trans hText)
      have hTwelve := integer?_repr v
      rw [hWritten, integer?_repr] at hTwelve
      cases hTwelve
      exact ⟨hOutcome, hText, s, x, hLine, hDenotes,
        ((hValue 12).mpr rfl).2.2⟩

end ExprCompiler
