import ExprCompiler.Proofs.Compiling
import Mathlib.Data.List.Count

/-
  Every token but the parentheses becomes one instruction.

  Key definitions include:
    * `TokenKind.isParen`
    * `Opcode.source?`
    * `Instruction.pushed?`
    * `Token.number?`
    * `Program.Conserves`

  Main declarations:
    * `Program.Conserves.binary`
    * `Grammar.Derives.conserves`
    * `compile_conserves_tokens`

  Tokens are in the order of the line and instructions in
  postorder. Numbers keep their order, and the operations
  between them are only rearranged.
-/

------------------------------------------------------------
-- Tokens and Their Instructions
------------------------------------------------------------

namespace ExprCompiler

namespace TokenKind

/- Whether a kind of token is a parenthesis. -/
def isParen : TokenKind → Bool
| .openParen => true
| .closeParen => true
| _ => false

end TokenKind

/- The number that a token is, if it is one. -/
def Token.number?
    (t : Token) :
    Option UInt32 :=
  if t.kind = .number then some t.value else none

/- The number that an instruction pushes, if it does so. -/
def Instruction.pushed?
    (i : Instruction) :
    Option UInt32 :=
  if i.opcode = .push then some i.value else none

namespace Opcode

/-
  The kind of token that an opcode stems from. A sign and an
  operator between operands are the same kind of token.
-/
def source? : Opcode → Option TokenKind
| .push => some .number
| .add => some .plus
| .pos => some .plus
| .sub => some .minus
| .neg => some .minus
| .mul => some .asterisk
| .div => some .slash
| .unknown _ _ => none

/- No opcode stems from a parenthesis. -/
theorem isParen_of_source?
    {opcode : Opcode}
    {kind : TokenKind}
    (hSource : opcode.source? = some kind) :
    kind.isParen = false := by
  cases opcode <;> cases hSource <;> rfl

/- Only pushes stem from numbers. -/
theorem pushed?_of_source?
    {opcode : Opcode}
    {kind : TokenKind}
    (hSource : opcode.source? = some kind)
    (hKind : kind ≠ .number) :
    (Instruction.ofOpcode opcode).pushed? = none := by
  have hPush : opcode ≠ .push := by
    rintro rfl
    exact hKind (Option.some.inj hSource).symm
  simp [Instruction.pushed?, Instruction.ofOpcode, hPush]

/- Where one opcode stems from a kind, it is counted. -/
theorem count_source?_of_one
    {kind : TokenKind}
    {opcode : Opcode}
    (hSource :
      ∀ o : Opcode, o.source? = some kind ↔ o = opcode)
    (opcodes : List Opcode) :
    (opcodes.map source?).count (some kind) =
      opcodes.count opcode := by
  rw [List.count, List.countP_map, List.count]
  apply List.countP_congr
  intro o _
  simp [hSource]

/- Where two opcodes stem from a kind, both are counted. -/
theorem count_source?_of_two
    {kind : TokenKind}
    {opcode opcode' : Opcode}
    (hOther : opcode ≠ opcode')
    (hSource :
      ∀ o : Opcode,
        o.source? = some kind ↔ o = opcode ∨ o = opcode')
    (opcodes : List Opcode) :
    (opcodes.map source?).count (some kind) =
      opcodes.count opcode + opcodes.count opcode' := by
  induction opcodes with
  | nil => rfl
  | cons o opcodes ih =>
      simp only [List.map_cons, List.count_cons, ih,
        beq_iff_eq, hSource]
      grind

end Opcode

------------------------------------------------------------
-- Programs of Tokens
------------------------------------------------------------

namespace Program

/-
  The instructions of a program are the tokens other than
  parentheses in some order, with the numbers in the order
  of the tokens.
-/
structure Conserves
    (p : Program)
    (ts : List PlacedToken) :
    Prop where
  kinds_perm :
    ((p.map (·.opcode)).map Opcode.source?).Perm
      (((ts.map (·.token.kind)).filter (!·.isParen)).map
        some)
  pushed_eq :
    p.filterMap (·.pushed?) = ts.filterMap (·.token.number?)

namespace Conserves

/- A number becomes a push. -/
theorem number
    {t : PlacedToken}
    (hKind : t.token.kind = .number) :
    Conserves [.ofNumber t.token.value] [t] := by
  constructor
  · simp [hKind, TokenKind.isParen, Instruction.ofNumber,
      Opcode.source?]
  · simp [hKind, Token.number?, Instruction.ofNumber,
      Instruction.pushed?]

/- Parentheses become nothing. -/
theorem group
    {p : Program}
    {first last : PlacedToken}
    {ts : List PlacedToken}
    (hInner : Conserves p ts)
    (hOpen : first.token.kind = .openParen)
    (hClose : last.token.kind = .closeParen) :
    Conserves p (first :: ts ++ [last]) := by
  constructor
  · simpa [hOpen, hClose, TokenKind.isParen] using
      hInner.kinds_perm
  · simpa [hOpen, hClose, Token.number?] using
      hInner.pushed_eq

/- An operator goes from between its operands behind them. -/
theorem binary
    {cl cr : Program}
    {ts us : List PlacedToken}
    {t : PlacedToken}
    {opcode : Opcode}
    (hLeft : Conserves cl ts)
    (hRight : Conserves cr us)
    (hSource : opcode.source? = some t.token.kind)
    (hKind : t.token.kind ≠ .number) :
    Conserves (cl ++ cr ++ [.ofOpcode opcode])
      (ts ++ t :: us) := by
  constructor
  · -- The operator is at the end of the program, but in
    -- the middle of the tokens.
    have hMoved :=
      (List.perm_append_singleton (some t.token.kind) _).trans
        (((hLeft.kinds_perm.append hRight.kinds_perm).cons
          (some t.token.kind)).trans List.perm_middle.symm)
    simpa [hSource, Instruction.ofOpcode,
      Opcode.isParen_of_source? hSource] using hMoved
  · simp [hLeft.pushed_eq, hRight.pushed_eq, hKind,
      Token.number?, Opcode.pushed?_of_source? hSource hKind]

/- A sign goes from in front of its operand behind it. -/
theorem unary
    {c : Program}
    {ts : List PlacedToken}
    {t : PlacedToken}
    {opcode : Opcode}
    (hOperand : Conserves c ts)
    (hSource : opcode.source? = some t.token.kind)
    (hKind : t.token.kind ≠ .number) :
    Conserves (c ++ [.ofOpcode opcode]) (t :: ts) := by
  have hNothing : Conserves [] [] :=
    ⟨List.Perm.nil, by simp⟩
  simpa using hNothing.binary hOperand hSource hKind

end Conserves

end Program

namespace Grammar

/- What derives from the grammar is conserved by its code. -/
theorem Derives.conserves
    {level : Level}
    {ts : List PlacedToken}
    {e : Expr}
    (hDerives : Derives level ts e)
    {p : Program}
    (hCode : e.code = .ok p) :
    p.Conserves ts := by
  induction hDerives generalizing p with
  | ofProduct _ ih => exact ih hCode
  | ofFactor _ ih => exact ih hCode
  | ofPrimary _ ih => exact ih hCode
  | sum _ hOp _ ihLeft ihRight =>
      rcases Expr.code_binary_eq_ok_iff.mp hCode with
        ⟨opcode, cl, cr, hOpcode, hLeft, hRight, rfl⟩
      rcases TokenKind.sumOp?_eq_some_iff.mp hOp with
        ⟨hKind, rfl⟩ | ⟨hKind, rfl⟩
      · cases hOpcode
        exact (ihLeft hLeft).binary (ihRight hRight)
          (by rw [hKind]; rfl) (by simp [hKind])
      · cases hOpcode
        exact (ihLeft hLeft).binary (ihRight hRight)
          (by rw [hKind]; rfl) (by simp [hKind])
  | product _ hOp _ ihLeft ihRight =>
      rcases Expr.code_binary_eq_ok_iff.mp hCode with
        ⟨opcode, cl, cr, hOpcode, hLeft, hRight, rfl⟩
      rcases TokenKind.productOp?_eq_some_iff.mp hOp with
        ⟨hKind, rfl⟩ | ⟨hKind, rfl⟩
      · cases hOpcode
        exact (ihLeft hLeft).binary (ihRight hRight)
          (by rw [hKind]; rfl) (by simp [hKind])
      · cases hOpcode
        exact (ihLeft hLeft).binary (ihRight hRight)
          (by rw [hKind]; rfl) (by simp [hKind])
  | signed hSign _ ih =>
      rcases Expr.code_unary_eq_ok_iff.mp hCode with
        ⟨opcode, c, hOpcode, hOperand, rfl⟩
      rcases TokenKind.sign?_eq_some_iff.mp hSign with
        ⟨hKind, rfl⟩ | ⟨hKind, rfl⟩
      · cases hOpcode
        exact (ih hOperand).unary
          (by rw [hKind]; rfl) (by simp [hKind])
      · cases hOpcode
        exact (ih hOperand).unary
          (by rw [hKind]; rfl) (by simp [hKind])
  | number hKind =>
      rw [Expr.code_number] at hCode
      cases hCode
      exact .number hKind
  | group hOpen _ hClose ih =>
      exact (ih hCode).group hOpen hClose

end Grammar

------------------------------------------------------------
-- Compiled Lines
------------------------------------------------------------

namespace Program

/- A kind has as many tokens as instructions. -/
theorem Conserves.count_eq
    {p : Program}
    {ts : List PlacedToken}
    (hConserves : p.Conserves ts)
    {kind : TokenKind}
    (hKind : kind.isParen = false) :
    ((p.map (·.opcode)).map Opcode.source?).count
        (some kind) =
      (ts.map (·.token.kind)).count kind := by
  rw [hConserves.kinds_perm.count_eq,
    List.count_map_of_injective _ some
      (fun _ _ => Option.some.inj),
    List.count_filter (by simp [hKind])]

end Program

/-
  The program of a line has one instruction for each token
  other than a parenthesis. It pushes the numbers of the
  line in their order, it multiplies and divides as often as
  the line does, and each plus and each minus of the line is
  either an operation on two operands or a sign.
-/
theorem compile_conserves_tokens
    {policy : OverflowPolicy}
    {line : Text}
    {c : Compilation}
    (hCompile : (compile policy line).1 = .ok c) :
    let opcodes := c.program.map (·.opcode)
    let kinds := c.tokens.map (·.token.kind)
    lex policy line = .ok c.tokens ∧
      opcodes.length = kinds.countP (!·.isParen) ∧
      c.program.filterMap (·.pushed?) =
        c.tokens.filterMap (·.token.number?) ∧
      opcodes.count .mul = kinds.count .asterisk ∧
      opcodes.count .div = kinds.count .slash ∧
      opcodes.count .add + opcodes.count .pos =
        kinds.count .plus ∧
      opcodes.count .sub + opcodes.count .neg =
        kinds.count .minus := by
  rcases compile_eq_ok_iff.mp hCompile with
    ⟨ts, e, p, hLex, hParse, hCode, rfl⟩
  have hConserves :=
    (Expr.derives_of_parse_eq_ok hParse).conserves hCode
  have hTimes :
      ∀ o : Opcode, o.source? = some .asterisk ↔
        o = .mul := by
    intro o
    cases o <;> simp [Opcode.source?]
  have hOver :
      ∀ o : Opcode, o.source? = some .slash ↔
        o = .div := by
    intro o
    cases o <;> simp [Opcode.source?]
  have hPlus :
      ∀ o : Opcode, o.source? = some .plus ↔
        o = .add ∨ o = .pos := by
    intro o
    cases o <;> simp [Opcode.source?]
  have hMinus :
      ∀ o : Opcode, o.source? = some .minus ↔
        o = .sub ∨ o = .neg := by
    intro o
    cases o <;> simp [Opcode.source?]
  have hLength := hConserves.kinds_perm.length_eq
  rw [List.length_map, List.length_map (f := some),
    ← List.countP_eq_length_filter] at hLength
  intro opcodes kinds
  refine ⟨hLex, hLength, hConserves.pushed_eq, ?_, ?_, ?_,
    ?_⟩
  · rw [← Opcode.count_source?_of_one hTimes]
    exact hConserves.count_eq rfl
  · rw [← Opcode.count_source?_of_one hOver]
    exact hConserves.count_eq rfl
  · rw [← Opcode.count_source?_of_two (by simp) hPlus]
    exact hConserves.count_eq rfl
  · rw [← Opcode.count_source?_of_two (by simp) hMinus]
    exact hConserves.count_eq rfl

/-
  Of the two minus signs of `-(1-2)*+3`, one is a sign and
  one an operator; the plus is a sign.
-/
theorem compile_conserves_signed_product :
    ∃ c,
      (compile .check (Text.ofString "-(1-2)*+3")).1 =
          .ok c ∧
        (c.program.map (·.opcode)).length = 7 ∧
        c.program.filterMap (·.pushed?) = [1, 2, 3] ∧
        (c.program.map (·.opcode)).count .sub +
          (c.program.map (·.opcode)).count .neg = 2 := by
  have hOk :
      (compile .check
        (Text.ofString "-(1-2)*+3")).1.isOk = true := by
    decide +kernel
  have hTokens :
      lex .check (Text.ofString "-(1-2)*+3") =
        .ok [⟨0, .ofKind .minus⟩, ⟨1, .ofKind .openParen⟩,
          ⟨2, .ofNumber 1⟩, ⟨3, .ofKind .minus⟩,
          ⟨4, .ofNumber 2⟩, ⟨5, .ofKind .closeParen⟩,
          ⟨6, .ofKind .asterisk⟩, ⟨7, .ofKind .plus⟩,
          ⟨8, .ofNumber 3⟩] := by
    decide +kernel
  cases hCompile :
      (compile .check (Text.ofString "-(1-2)*+3")).1 with
  | error f =>
      rw [hCompile] at hOk
      cases hOk
  | ok c =>
      rcases compile_conserves_tokens hCompile with
        ⟨hLex, hLength, hPushed, _, _, _, hMinus⟩
      rw [hTokens] at hLex
      rw [← Except.ok.inj hLex] at hLength hPushed hMinus
      exact ⟨c, rfl, hLength, hPushed, hMinus⟩

end ExprCompiler
