import ExprCompiler.Expr.Basic
import ExprCompiler.Proofs.Numbers

/-
  Trees are told apart by the way they are rendered.

  Key definitions include:
    * `EndsNumber`
    * `Expr.IsReadable`

  Main declarations:
    * `digits_append_inj`
    * `Expr.isReadable_of_isLegal`
    * `Expr.render_identifies_tree`

  A number ends where its digits end, and an application
  ends with its own parenthesis. So it can be told from the
  characters where a rendered tree ends, and what the tree
  is, whatever follows other than a digit.
-/

------------------------------------------------------------
-- Ends of Numbers
------------------------------------------------------------

namespace ExprCompiler

/- Characters do not go on with a digit. -/
def EndsNumber
    (rest : List Char) :
    Prop :=
  ∀ c ∈ rest.head?, c.isDigit = false

theorem endsNumber_nil :
    EndsNumber [] := by
  simp [EndsNumber]

theorem endsNumber_cons
    {c : Char}
    (hDigit : c.isDigit = false)
    (rest : List Char) :
    EndsNumber (c :: rest) := by
  simp [EndsNumber, hDigit]

/- Up to the end of a number there are digits only. -/
theorem takeWhile_isDigit_append
    {digits rest : List Char}
    (hDigits : ∀ c ∈ digits, c.isDigit = true)
    (hRest : EndsNumber rest) :
    (digits ++ rest).takeWhile Char.isDigit = digits := by
  rw [List.takeWhile_append_of_pos hDigits]
  cases rest with
  | nil => simp
  | cons c rest =>
      have hLast : c.isDigit = false := hRest c rfl
      rw [List.takeWhile_cons_of_neg (by simp [hLast]),
        List.append_nil]

theorem digits_append_inj
    {digits digits' rest rest' : List Char}
    (hDigits : ∀ c ∈ digits, c.isDigit = true)
    (hDigits' : ∀ c ∈ digits', c.isDigit = true)
    (hRest : EndsNumber rest)
    (hRest' : EndsNumber rest')
    (hSame : digits ++ rest = digits' ++ rest') :
    digits = digits' ∧ rest = rest' := by
  have hFirst : digits = digits' := by
    rw [← takeWhile_isDigit_append hDigits hRest, hSame,
      takeWhile_isDigit_append hDigits' hRest']
  subst hFirst
  exact ⟨rfl, List.append_cancel_left hSame⟩

------------------------------------------------------------
-- Symbols of Operations
------------------------------------------------------------

/- A known operation has a symbol of one character. -/
theorem UnaryOp.exists_char_of_isKnown
    {op : UnaryOp}
    (hKnown : op.IsKnown) :
    ∃ c, op.symbol = String.singleton c := by
  cases op with
  | plus => exact ⟨'+', rfl⟩
  | minus => exact ⟨'-', rfl⟩
  | unknown s h => exact absurd hKnown id

/- An operation is determined by its symbol. -/
theorem UnaryOp.symbol_inj
    {op op' : UnaryOp}
    (hSymbol : op.symbol = op'.symbol) :
    op = op' := by
  rw [← op.ofSymbol_symbol, hSymbol, op'.ofSymbol_symbol]

theorem BinaryOp.exists_char_of_isKnown
    {op : BinaryOp}
    (hKnown : op.IsKnown) :
    ∃ c, op.symbol = String.singleton c := by
  cases op with
  | add => exact ⟨'+', rfl⟩
  | sub => exact ⟨'-', rfl⟩
  | mul => exact ⟨'*', rfl⟩
  | div => exact ⟨'/', rfl⟩
  | unknown s h => exact absurd hKnown id

theorem BinaryOp.symbol_inj
    {op op' : BinaryOp}
    (hSymbol : op.symbol = op'.symbol) :
    op = op' := by
  rw [← op.ofSymbol_symbol, hSymbol, op'.ofSymbol_symbol]

------------------------------------------------------------
-- Characters of Rendered Trees
------------------------------------------------------------

namespace Expr

/- A number is rendered in digits. -/
theorem isDigit_of_mem_render
    {value : UInt32}
    {c : Char}
    (hMem : c ∈ (number value).render.toList) :
    c.isDigit = true := by
  have hDigits : c ∈ Nat.toDigits 10 value.toNat := by
    rwa [← Nat.toList_repr]
  exact Nat.isDigit_of_mem_toDigits (by decide) (by decide)
    hDigits

/- A number does not begin like an application. -/
theorem render_number_ne_opened
    {value : UInt32}
    {rest after : List Char} :
    (number value).render.toList ++ rest ≠
      '(' :: after := by
  intro hSame
  cases hDigits : (number value).render.toList with
  | nil =>
      exact Nat.toDigits_ne_nil
        (Nat.toList_repr.symm.trans hDigits)
  | cons c more =>
      have hDigit : c.isDigit = true :=
        isDigit_of_mem_render (hDigits ▸ List.mem_cons_self)
      rw [hDigits] at hSame
      injection hSame with hFirst _
      rw [hFirst] at hDigit
      cases hDigit

/- Applications that begin alike have one symbol. -/
theorem opened_inj
    {c c' : Char}
    {cs cs' : List Char}
    (hSame :
      '(' :: c :: ' ' :: cs = '(' :: c' :: ' ' :: cs') :
    c = c' ∧ cs = cs' := by
  simpa using hSame

/- A known operation stands in front of its operand. -/
theorem exists_symbol_render_unary
    {op : UnaryOp}
    (hKnown : op.IsKnown)
    (x : Expr) :
    ∃ c, op.symbol = String.singleton c ∧
      ∀ rest, (unary op x).render.toList ++ rest =
        '(' :: c :: ' ' ::
          (x.render.toList ++ ')' :: rest) := by
  rcases op.exists_char_of_isKnown hKnown with ⟨c, hSymbol⟩
  exact ⟨c, hSymbol, fun rest => by simp [render, hSymbol]⟩

/- A space is between the operands of an operation. -/
theorem exists_symbol_render_binary
    {op : BinaryOp}
    (hKnown : op.IsKnown)
    (l r : Expr) :
    ∃ c, op.symbol = String.singleton c ∧
      ∀ rest, (binary op l r).render.toList ++ rest =
        '(' :: c :: ' ' :: (l.render.toList ++
          ' ' :: (r.render.toList ++ ')' :: rest)) := by
  rcases op.exists_char_of_isKnown hKnown with ⟨c, hSymbol⟩
  exact ⟨c, hSymbol, fun rest => by simp [render, hSymbol]⟩

------------------------------------------------------------
-- Unique Readability
------------------------------------------------------------

/-
  No other legal tree is at the head of characters that the
  given tree is at the head of. The rests are compared, too,
  since what comes behind the first operand is what tells an
  operation on one operand from an operation on two.
-/
def IsReadable
    (e : Expr) :
    Prop :=
  ∀ e' rest rest', e'.IsLegal →
    EndsNumber rest → EndsNumber rest' →
      e.render.toList ++ rest = e'.render.toList ++ rest' →
        e = e' ∧ rest = rest'

theorem isReadable_number
    (value : UInt32) :
    IsReadable (number value) := by
  intro e' rest rest' hLegal hRest hRest' hSame
  cases e' with
  | missing => exact absurd hLegal id
  | number value' =>
      rcases digits_append_inj
          (fun _ => isDigit_of_mem_render)
          (fun _ => isDigit_of_mem_render)
          hRest hRest' hSame with
        ⟨hDigits, hEnd⟩
      have hValue : value.toNat = value'.toNat := by
        apply eq_of_toDigits_eq
        rwa [← Nat.toList_repr, ← Nat.toList_repr]
      exact ⟨by rw [UInt32.toNat_inj.mp hValue], hEnd⟩
  | unary op x =>
      rcases exists_symbol_render_unary hLegal.1 x with
        ⟨c, _, hChars⟩
      rw [hChars] at hSame
      exact absurd hSame render_number_ne_opened
  | binary op l r =>
      rcases exists_symbol_render_binary hLegal.1 l r with
        ⟨c, _, hChars⟩
      rw [hChars] at hSame
      exact absurd hSame render_number_ne_opened

theorem IsReadable.unary
    {op : UnaryOp}
    {x : Expr}
    (hKnown : op.IsKnown)
    (hOperand : x.IsReadable) :
    IsReadable (unary op x) := by
  intro e' rest rest' hLegal hRest hRest' hSame
  rcases exists_symbol_render_unary hKnown x with
    ⟨c, hSymbol, hChars⟩
  rw [hChars] at hSame
  cases e' with
  | missing => exact absurd hLegal id
  | number value =>
      exact absurd hSame.symm render_number_ne_opened
  | unary op' x' =>
      rcases exists_symbol_render_unary hLegal.1 x' with
        ⟨c', hSymbol', hChars'⟩
      rw [hChars'] at hSame
      rcases opened_inj hSame with ⟨rfl, hBehind⟩
      rcases hOperand x' _ _ hLegal.2
          (endsNumber_cons rfl _) (endsNumber_cons rfl _)
          hBehind with
        ⟨rfl, hEnd⟩
      cases UnaryOp.symbol_inj (hSymbol.trans hSymbol'.symm)
      exact ⟨rfl, List.tail_eq_of_cons_eq hEnd⟩
  | binary op' l' r' =>
      rcases exists_symbol_render_binary hLegal.1 l' r' with
        ⟨c', _, hChars'⟩
      rw [hChars'] at hSame
      rcases hOperand l' _ _ hLegal.2.1
          (endsNumber_cons rfl _) (endsNumber_cons rfl _)
          (opened_inj hSame).2 with
        ⟨_, hEnd⟩
      -- Behind the operand is `)` here and a space there.
      cases hEnd

theorem IsReadable.binary
    {op : BinaryOp}
    {l r : Expr}
    (hKnown : op.IsKnown)
    (hLeft : l.IsReadable)
    (hRight : r.IsReadable) :
    IsReadable (binary op l r) := by
  intro e' rest rest' hLegal hRest hRest' hSame
  rcases exists_symbol_render_binary hKnown l r with
    ⟨c, hSymbol, hChars⟩
  rw [hChars] at hSame
  cases e' with
  | missing => exact absurd hLegal id
  | number value =>
      exact absurd hSame.symm render_number_ne_opened
  | unary op' x' =>
      rcases exists_symbol_render_unary hLegal.1 x' with
        ⟨c', _, hChars'⟩
      rw [hChars'] at hSame
      rcases hLeft x' _ _ hLegal.2
          (endsNumber_cons rfl _) (endsNumber_cons rfl _)
          (opened_inj hSame).2 with
        ⟨_, hEnd⟩
      cases hEnd
  | binary op' l' r' =>
      rcases exists_symbol_render_binary hLegal.1 l' r' with
        ⟨c', hSymbol', hChars'⟩
      rw [hChars'] at hSame
      rcases opened_inj hSame with ⟨rfl, hBehind⟩
      rcases hLeft l' _ _ hLegal.2.1
          (endsNumber_cons rfl _) (endsNumber_cons rfl _)
          hBehind with
        ⟨rfl, hSecond⟩
      rcases hRight r' _ _ hLegal.2.2
          (endsNumber_cons rfl _) (endsNumber_cons rfl _)
          (List.tail_eq_of_cons_eq hSecond) with
        ⟨rfl, hEnd⟩
      cases BinaryOp.symbol_inj
        (hSymbol.trans hSymbol'.symm)
      exact ⟨rfl, List.tail_eq_of_cons_eq hEnd⟩

theorem isReadable_of_isLegal
    {e : Expr}
    (hLegal : e.IsLegal) :
    e.IsReadable := by
  induction e with
  | missing => exact absurd hLegal id
  | number value => exact isReadable_number value
  | unary op x ih => exact .unary hLegal.1 (ih hLegal.2)
  | binary op l r ihLeft ihRight =>
      exact .binary hLegal.1 (ihLeft hLegal.2.1)
        (ihRight hLegal.2.2)

/- Legal trees are rendered alike only if they are equal. -/
theorem render_identifies_tree
    {e e' : Expr}
    (hLegal : e.IsLegal)
    (hLegal' : e'.IsLegal) :
    e.render = e'.render ↔ e = e' := by
  constructor
  · intro hSame
    have hChars :
        e.render.toList ++ [] = e'.render.toList ++ [] := by
      rw [hSame]
    exact (isReadable_of_isLegal hLegal e' [] [] hLegal'
      endsNumber_nil endsNumber_nil hChars).1
  · rintro rfl
    rfl

/-
  The two groupings of `1-2-3` are told apart, and so are
  the difference and the negation that have the first of
  them as their only or their first operand.
-/
theorem render_identifies_grouping :
    let one : Expr := .number 1
    let two : Expr := .number 2
    let left : Expr :=
      .binary .sub (.binary .sub one two) (.number 3)
    let right : Expr :=
      .binary .sub one (.binary .sub two (.number 3))
    let difference : Expr := .binary .sub left one
    let negation : Expr := .unary .minus left
    left.IsLegal ∧ right.IsLegal ∧
      difference.IsLegal ∧ negation.IsLegal ∧
      left.render ≠ right.render ∧
      difference.render ≠ negation.render := by
  intro one two left right difference negation
  have hLeft : left.IsLegal := by
    simp [left, one, two, IsLegal, BinaryOp.IsKnown]
  have hRight : right.IsLegal := by
    simp [right, one, two, IsLegal, BinaryOp.IsKnown]
  have hDifference : difference.IsLegal :=
    ⟨trivial, hLeft, trivial⟩
  have hNegation : negation.IsLegal := ⟨trivial, hLeft⟩
  refine ⟨hLeft, hRight, hDifference, hNegation, ?_, ?_⟩
  · rw [ne_eq, render_identifies_tree hLeft hRight]
    decide
  · rw [ne_eq, render_identifies_tree hDifference hNegation]
    decide

end Expr

end ExprCompiler
