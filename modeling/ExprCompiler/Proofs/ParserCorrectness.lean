import ExprCompiler.Proofs.Grammar

/-
  Tokens are read exactly as the grammar derives them.

  Key definitions include:
    * `Pending.ReadFrom`
    * `Parser.Consumed`

  Main declarations:
    * `Parser.derives_of_read_eq_tree`
    * `Parser.read_eq_tree_of_derives`
    * `Grammar.Derives.unique`
    * `Expr.parse_eq_ok_iff_derives`

  Of what is kept aside while tokens are read, each part was
  derived from the tokens that it was made of. This holds
  before every token, and it turns into a derivation of the
  whole list when reading ends.
-/

------------------------------------------------------------
-- Reading One Token
------------------------------------------------------------

namespace ExprCompiler

namespace Parser

section Steps

variable {limit : Int}
variable {outer : List Pending} {p : Pending}
variable {t : PlacedToken} {rest : List PlacedToken}
variable {x : Expr}

theorem operand_number
    (hKind : t.token.kind = .number) :
    operand limit outer p (t :: rest) =
      operator limit outer p (.number t.token.value) rest := by
  rw [operand, hKind]

theorem operand_open
    (hKind : t.token.kind = .openParen) :
    operand limit outer p (t :: rest) =
      operand limit (p :: outer) {} rest := by
  rw [operand, hKind]

theorem operand_sign
    {op : UnaryOp}
    (hSign : t.token.kind.sign? = some op)
    (hUnsigned : p.sign = none) :
    operand limit outer p (t :: rest) =
      operand limit outer (p.withSign op) rest := by
  rcases TokenKind.sign?_eq_some_iff.mp hSign with
    ⟨hKind, rfl⟩ | ⟨hKind, rfl⟩
  · simp [operand, hKind, hUnsigned]
  · simp [operand, hKind, hUnsigned]

theorem operator_product
    {op : BinaryOp}
    (hOp : t.token.kind.productOp? = some op) :
    operator limit outer p x (t :: rest) =
      operand limit outer (p.timesAfter x op) rest := by
  rcases TokenKind.productOp?_eq_some_iff.mp hOp with
    ⟨hKind, rfl⟩ | ⟨hKind, rfl⟩
  · simp [operator, hKind]
  · simp [operator, hKind]

theorem operator_sum
    {op : BinaryOp}
    (hOp : t.token.kind.sumOp? = some op) :
    operator limit outer p x (t :: rest) =
      operand limit outer (p.plusAfter x op) rest := by
  rcases TokenKind.sumOp?_eq_some_iff.mp hOp with
    ⟨hKind, rfl⟩ | ⟨hKind, rfl⟩
  · simp [operator, hKind]
  · simp [operator, hKind]

theorem operator_close
    {q : Pending}
    (hKind : t.token.kind = .closeParen) :
    operator limit (q :: outer) p x (t :: rest) =
      operator limit outer q (p.sumOf x) rest := by
  simp [operator, hKind]

end Steps

/- Everything that can happen where an operand begins. -/
theorem operand_cons_cases
    (limit : Int)
    (outer : List Pending)
    (p : Pending)
    (t : PlacedToken)
    (rest : List PlacedToken) :
    (t.token.kind = .number ∧
        operand limit outer p (t :: rest) =
          operator limit outer p (.number t.token.value)
            rest) ∨
      (t.token.kind = .openParen ∧
        operand limit outer p (t :: rest) =
          operand limit (p :: outer) {} rest) ∨
      (∃ op, t.token.kind.sign? = some op ∧
        p.sign = none ∧
        operand limit outer p (t :: rest) =
          operand limit outer (p.withSign op) rest) ∨
      (t.token.kind ≠ .number ∧
        t.token.kind ≠ .openParen ∧
        (t.token.kind.sign? = none ∨ p.sign ≠ none) ∧
        operand limit outer p (t :: rest) =
          .stuck (.ofFound limit .number (some t))
            (t :: rest)) := by
  cases hKind : t.token.kind with
  | number => exact .inl ⟨rfl, operand_number hKind⟩
  | openParen =>
      exact .inr (.inl ⟨rfl, operand_open hKind⟩)
  | plus =>
      cases hSign : p.sign with
      | none =>
          have hOp : t.token.kind.sign? = some .plus := by
            rw [hKind]; rfl
          exact .inr (.inr (.inl
            ⟨.plus, rfl, rfl, operand_sign hOp hSign⟩))
      | some op => simp [operand, hKind, hSign]
  | minus =>
      cases hSign : p.sign with
      | none =>
          have hOp : t.token.kind.sign? = some .minus := by
            rw [hKind]; rfl
          exact .inr (.inr (.inl
            ⟨.minus, rfl, rfl, operand_sign hOp hSign⟩))
      | some op => simp [operand, hKind, hSign]
  | _ => simp [operand, hKind, TokenKind.sign?]

/- Everything that can happen behind a primary. -/
theorem operator_cons_cases
    (limit : Int)
    (outer : List Pending)
    (p : Pending)
    (x : Expr)
    (t : PlacedToken)
    (rest : List PlacedToken) :
    (∃ op, t.token.kind.productOp? = some op ∧
        operator limit outer p x (t :: rest) =
          operand limit outer (p.timesAfter x op) rest) ∨
      (∃ op, t.token.kind.sumOp? = some op ∧
        operator limit outer p x (t :: rest) =
          operand limit outer (p.plusAfter x op) rest) ∨
      (∃ q more, t.token.kind = .closeParen ∧
        outer = q :: more ∧
        operator limit outer p x (t :: rest) =
          operator limit more q (p.sumOf x) rest) ∨
      (t.token.kind.productOp? = none ∧
        t.token.kind.sumOp? = none ∧
        (t.token.kind = .closeParen → outer = []) ∧
        operator limit outer p x (t :: rest) =
          finish limit outer (p.sumOf x) (t :: rest)) := by
  cases hProduct : t.token.kind.productOp? with
  | some op =>
      exact .inl ⟨op, rfl, operator_product hProduct⟩
  | none =>
      cases hSum : t.token.kind.sumOp? with
      | some op =>
          exact .inr (.inl ⟨op, rfl, operator_sum hSum⟩)
      | none =>
          by_cases hClose : t.token.kind = .closeParen
          · cases outer with
            | nil => simp [operator, hClose]
            | cons q more =>
                exact .inr (.inr (.inl
                  ⟨q, more, hClose, rfl,
                    operator_close hClose⟩))
          · refine .inr (.inr (.inr
              ⟨rfl, rfl, fun h => absurd h hClose, ?_⟩))
            cases hKind : t.token.kind with
            | asterisk =>
                simp [hKind, TokenKind.productOp?] at hProduct
            | slash =>
                simp [hKind, TokenKind.productOp?] at hProduct
            | plus => simp [hKind, TokenKind.sumOp?] at hSum
            | minus => simp [hKind, TokenKind.sumOp?] at hSum
            | closeParen => exact absurd hKind hClose
            | _ => simp [operator, hKind]

end Parser

------------------------------------------------------------
-- Tokens of What Waits
------------------------------------------------------------

namespace Pending

open Grammar

/-
  A waiting operator was read from the tokens of its left
  operand and its own token.
-/
def WaitsAfter
    (level : Level)
    (op? : TokenKind → Option BinaryOp) :
    Option (Expr × BinaryOp) → List PlacedToken → Prop
| none, ts => ts = []
| some (left, op), ts =>
    ∃ us t, ts = us ++ [t] ∧ Derives level us left ∧
      op? t.token.kind = some op

/- A waiting sign was read from its own token. -/
def SignAfter : Option UnaryOp → List PlacedToken → Prop
| none, ts => ts = []
| some op, ts =>
    ∃ t, ts = [t] ∧ t.token.kind.sign? = some op

/- Everything that waits in a group was read from tokens. -/
def ReadFrom
    (p : Pending)
    (ts : List PlacedToken) :
    Prop :=
  ∃ sums products signs,
    ts = sums ++ (products ++ signs) ∧
      WaitsAfter .sum TokenKind.sumOp? p.sum sums ∧
      WaitsAfter .product TokenKind.productOp? p.product
        products ∧
      SignAfter p.sign signs

/- Nothing waits where a group begins. -/
theorem readFrom_nil :
    ReadFrom {} [] :=
  ⟨[], [], [], rfl, rfl, rfl, rfl⟩

/- A primary makes a factor with the sign before it. -/
theorem derives_factor
    {p : Pending}
    {signs us : List PlacedToken}
    {x : Expr}
    (hSigns : SignAfter p.sign signs)
    (hPrimary : Derives .primary us x) :
    Derives .factor (signs ++ us) (p.factor x) := by
  unfold factor
  cases hSign : p.sign with
  | none =>
      rw [hSign] at hSigns
      cases hSigns
      exact .ofPrimary hPrimary
  | some op =>
      rw [hSign] at hSigns
      rcases hSigns with ⟨t, rfl, hOp⟩
      exact .signed hOp hPrimary

/- A primary makes a product with what waits before it. -/
theorem derives_productOf
    {p : Pending}
    {products signs us : List PlacedToken}
    {x : Expr}
    (hProducts :
      WaitsAfter .product TokenKind.productOp? p.product
        products)
    (hSigns : SignAfter p.sign signs)
    (hPrimary : Derives .primary us x) :
    Derives .product (products ++ (signs ++ us))
      (p.productOf x) := by
  have hFactor := derives_factor hSigns hPrimary
  unfold productOf complete
  cases hWaiting : p.product with
  | none =>
      rw [hWaiting] at hProducts
      cases hProducts
      exact .ofFactor hFactor
  | some waiting =>
      rw [hWaiting] at hProducts
      rcases hProducts with ⟨vs, t, rfl, hLeft, hOp⟩
      simpa using Derives.product hLeft hOp hFactor

/- A primary makes a sum with everything that waits. -/
theorem ReadFrom.derives_sumOf
    {p : Pending}
    {ts us : List PlacedToken}
    {x : Expr}
    (hRead : p.ReadFrom ts)
    (hPrimary : Derives .primary us x) :
    Derives .sum (ts ++ us) (p.sumOf x) := by
  rcases hRead with
    ⟨sums, products, signs, rfl, hSums, hProducts, hSigns⟩
  have hProduct :=
    derives_productOf hProducts hSigns hPrimary
  unfold sumOf complete
  cases hWaiting : p.sum with
  | none =>
      rw [hWaiting] at hSums
      cases hSums
      simpa using Derives.ofProduct hProduct
  | some waiting =>
      rw [hWaiting] at hSums
      rcases hSums with ⟨vs, t, rfl, hLeft, hOp⟩
      simpa using Derives.sum hLeft hOp hProduct

/- A sign is added to what waits. -/
theorem ReadFrom.withSign
    {p : Pending}
    {ts : List PlacedToken}
    {t : PlacedToken}
    {op : UnaryOp}
    (hRead : p.ReadFrom ts)
    (hUnsigned : p.sign = none)
    (hSign : t.token.kind.sign? = some op) :
    (p.withSign op).ReadFrom (ts ++ [t]) := by
  rcases hRead with
    ⟨sums, products, signs, rfl, hSums, hProducts, hSigns⟩
  rw [hUnsigned] at hSigns
  cases hSigns
  exact ⟨sums, products, [t], by simp, hSums, hProducts,
    t, rfl, hSign⟩

/- An operator of a product takes in the product so far. -/
theorem ReadFrom.timesAfter
    {p : Pending}
    {ts us : List PlacedToken}
    {x : Expr}
    {t : PlacedToken}
    {op : BinaryOp}
    (hRead : p.ReadFrom ts)
    (hPrimary : Derives .primary us x)
    (hOp : t.token.kind.productOp? = some op) :
    (p.timesAfter x op).ReadFrom (ts ++ us ++ [t]) := by
  rcases hRead with
    ⟨sums, products, signs, rfl, hSums, hProducts, hSigns⟩
  have hProduct :=
    derives_productOf hProducts hSigns hPrimary
  refine ⟨sums, products ++ (signs ++ us) ++ [t], [],
    by simp, hSums, ?_, rfl⟩
  exact ⟨_, t, rfl, hProduct, hOp⟩

/- An operator of a sum takes in everything so far. -/
theorem ReadFrom.plusAfter
    {p : Pending}
    {ts us : List PlacedToken}
    {x : Expr}
    {t : PlacedToken}
    {op : BinaryOp}
    (hRead : p.ReadFrom ts)
    (hPrimary : Derives .primary us x)
    (hOp : t.token.kind.sumOp? = some op) :
    (p.plusAfter x op).ReadFrom (ts ++ us ++ [t]) := by
  refine ⟨ts ++ us ++ [t], [], [], by simp, ?_, rfl, rfl⟩
  exact ⟨_, t, rfl, hRead.derives_sumOf hPrimary, hOp⟩

end Pending

------------------------------------------------------------
-- Tokens of Open Groups
------------------------------------------------------------

namespace Parser

open Grammar

/-
  The tokens that were consumed where an operand begins: for
  each open group what waits before it and its parenthesis.
-/
def Consumed :
    List Pending → Pending → List PlacedToken → Prop
| [], p, ts => p.ReadFrom ts
| q :: outer, p, ts =>
    ∃ before t inner,
      ts = before ++ t :: inner ∧
        Consumed outer q before ∧
        t.token.kind = .openParen ∧ p.ReadFrom inner

/- What happens within a group leaves the others alone. -/
theorem Consumed.extend
    {outer : List Pending}
    {p p' : Pending}
    {ts us : List PlacedToken}
    (hConsumed : Consumed outer p ts)
    (hInner :
      ∀ inner, p.ReadFrom inner →
        p'.ReadFrom (inner ++ us)) :
    Consumed outer p' (ts ++ us) := by
  cases outer with
  | nil => exact hInner ts hConsumed
  | cons q outer =>
      rcases hConsumed with
        ⟨before, t, inner, rfl, hBefore, hOpen, hRead⟩
      exact ⟨before, t, inner ++ us, by simp, hBefore,
        hOpen, hInner inner hRead⟩

/- A parenthesis opens a group. -/
theorem Consumed.open
    {outer : List Pending}
    {p : Pending}
    {ts : List PlacedToken}
    {t : PlacedToken}
    (hConsumed : Consumed outer p ts)
    (hOpen : t.token.kind = .openParen) :
    Consumed (p :: outer) {} (ts ++ [t]) :=
  ⟨ts, t, [], rfl, hConsumed, hOpen, Pending.readFrom_nil⟩

------------------------------------------------------------
-- Trees That Are Read Are Derived
------------------------------------------------------------

/- A tree read from an operand on is derived. -/
def OperandDerives
    (limit : Int)
    (ts : List PlacedToken) :
    Prop :=
  ∀ outer p before e rest,
    Consumed outer p before →
    operand limit outer p ts = .tree e rest →
      ∃ us, ts = us ++ rest ∧
        Derives .sum (before ++ us) e

/- A tree read from behind a primary on is derived. -/
def OperatorDerives
    (limit : Int)
    (ts : List PlacedToken) :
    Prop :=
  ∀ outer p before x vs e rest,
    Consumed outer p before →
    Derives .primary vs x →
    operator limit outer p x ts = .tree e rest →
      ∃ us, ts = us ++ rest ∧
        Derives .sum (before ++ vs ++ us) e

/- Reading ends with a tree if no group is open. -/
theorem finish_eq_tree_iff
    {limit : Int}
    {outer : List Pending}
    {e e' : Expr}
    {ts rest : List PlacedToken} :
    finish limit outer e ts = .tree e' rest ↔
      outer = [] ∧ e = e' ∧ ts = rest := by
  cases outer with
  | nil => simp [finish]
  | cons q outer => simp [finish]

/- The tree at which reading ends is derived. -/
theorem derives_of_finish
    {limit : Int}
    {outer : List Pending}
    {p : Pending}
    {before vs ts rest : List PlacedToken}
    {x e : Expr}
    (hConsumed : Consumed outer p before)
    (hPrimary : Derives .primary vs x)
    (hTree :
      finish limit outer (p.sumOf x) ts = .tree e rest) :
    ∃ us, ts = us ++ rest ∧
      Derives .sum (before ++ vs ++ us) e := by
  rcases finish_eq_tree_iff.mp hTree with ⟨rfl, rfl, rfl⟩
  refine ⟨[], rfl, ?_⟩
  rw [List.append_nil]
  exact Pending.ReadFrom.derives_sumOf hConsumed hPrimary

theorem operandDerives_cons
    {limit : Int}
    {t : PlacedToken}
    {ts : List PlacedToken}
    (ihOperand : OperandDerives limit ts)
    (ihOperator : OperatorDerives limit ts) :
    OperandDerives limit (t :: ts) := by
  intro outer p before e rest hConsumed hTree
  rcases operand_cons_cases limit outer p t ts with
    ⟨hKind, hStep⟩ | ⟨hKind, hStep⟩ |
      ⟨op, hSign, hUnsigned, hStep⟩ | ⟨_, _, _, hStep⟩
  · rw [hStep] at hTree
    rcases ihOperator outer p before _ [t] e rest
        hConsumed (.number hKind) hTree with
      ⟨us, rfl, hDerives⟩
    exact ⟨t :: us, rfl, by simpa using hDerives⟩
  · rw [hStep] at hTree
    rcases ihOperand (p :: outer) {} (before ++ [t]) e rest
        (hConsumed.open hKind) hTree with
      ⟨us, rfl, hDerives⟩
    exact ⟨t :: us, rfl, by simpa using hDerives⟩
  · rw [hStep] at hTree
    have hNext :
        Consumed outer (p.withSign op) (before ++ [t]) :=
      hConsumed.extend fun inner hRead =>
        hRead.withSign hUnsigned hSign
    rcases ihOperand outer _ (before ++ [t]) e rest
        hNext hTree with
      ⟨us, rfl, hDerives⟩
    exact ⟨t :: us, rfl, by simpa using hDerives⟩
  · rw [hStep] at hTree
    cases hTree

theorem operatorDerives_cons
    {limit : Int}
    {t : PlacedToken}
    {ts : List PlacedToken}
    (ihOperand : OperandDerives limit ts)
    (ihOperator : OperatorDerives limit ts) :
    OperatorDerives limit (t :: ts) := by
  intro outer p before x vs e rest hConsumed hPrimary hTree
  rcases operator_cons_cases limit outer p x t ts with
    ⟨op, hOp, hStep⟩ | ⟨op, hOp, hStep⟩ |
      ⟨q, more, hClose, rfl, hStep⟩ | ⟨_, _, _, hStep⟩
  · rw [hStep] at hTree
    have hNext :
        Consumed outer (p.timesAfter x op)
          (before ++ (vs ++ [t])) :=
      hConsumed.extend fun inner hRead => by
        simpa using hRead.timesAfter hPrimary hOp
    rcases ihOperand outer _ _ e rest hNext hTree with
      ⟨us, rfl, hDerives⟩
    exact ⟨t :: us, rfl, by simpa using hDerives⟩
  · rw [hStep] at hTree
    have hNext :
        Consumed outer (p.plusAfter x op)
          (before ++ (vs ++ [t])) :=
      hConsumed.extend fun inner hRead => by
        simpa using hRead.plusAfter hPrimary hOp
    rcases ihOperand outer _ _ e rest hNext hTree with
      ⟨us, rfl, hDerives⟩
    exact ⟨t :: us, rfl, by simpa using hDerives⟩
  · -- The group that ends here is a primary of the group
    -- around it.
    rw [hStep] at hTree
    rcases hConsumed with
      ⟨outside, first, inner, rfl, hOutside, hOpen, hRead⟩
    have hGroup :
        Derives .primary (first :: (inner ++ vs) ++ [t])
          (p.sumOf x) :=
      .group hOpen (hRead.derives_sumOf hPrimary) hClose
    rcases ihOperator more q outside _ _ e rest
        hOutside hGroup hTree with
      ⟨us, rfl, hDerives⟩
    exact ⟨t :: us, rfl, by simpa using hDerives⟩
  · rw [hStep] at hTree
    exact derives_of_finish hConsumed hPrimary hTree

/-
  A tree that is read derives from the tokens it was read
  from. The induction is on the tokens ahead; the tokens
  behind are those that the open groups have consumed.
-/
theorem derives_of_tree
    (limit : Int)
    (ts : List PlacedToken) :
    OperandDerives limit ts ∧ OperatorDerives limit ts := by
  induction ts with
  | nil =>
      constructor
      · intro outer p before e rest hConsumed hTree
        simp [operand] at hTree
      · intro outer p before x vs e rest hConsumed
          hPrimary hTree
        rw [operator] at hTree
        exact derives_of_finish hConsumed hPrimary hTree
  | cons t ts ih =>
      exact ⟨operandDerives_cons ih.1 ih.2,
        operatorDerives_cons ih.1 ih.2⟩

/- The tree of a reading is derived from what it consumed. -/
theorem derives_of_read_eq_tree
    {limit : Int}
    {ts rest : List PlacedToken}
    {e : Expr}
    (hRead : read limit ts = .tree e rest) :
    ∃ us, ts = us ++ rest ∧ Derives .sum us e :=
  (derives_of_tree limit ts).1 [] {} [] e rest
    Pending.readFrom_nil hRead

------------------------------------------------------------
-- Derived Trees Are Read
------------------------------------------------------------

/-
  What reading the tokens of a derivation comes to: behind
  them, a primary was just read, and together with what then
  waits it makes up the derived tree.
-/
def ReadsThrough
    (limit : Int) :
    Level → List PlacedToken → Expr → Prop
| .primary, ts, e =>
    ∀ outer p rest,
      operand limit outer p (ts ++ rest) =
        operator limit outer p e rest
| .factor, ts, e =>
    ∀ outer p rest, p.sign = none →
      ∃ sign x,
        operand limit outer p (ts ++ rest) =
            operator limit outer { p with sign := sign } x
              rest ∧
          { p with sign := sign }.factor x = e
| .product, ts, e =>
    ∀ outer p rest, p.product = none → p.sign = none →
      ∃ q x,
        operand limit outer p (ts ++ rest) =
            operator limit outer q x rest ∧
          q.sum = p.sum ∧ q.productOf x = e
| .sum, ts, e =>
    ∀ outer rest,
      ∃ q x,
        operand limit outer {} (ts ++ rest) =
            operator limit outer q x rest ∧
          q.sumOf x = e

/- The tokens of a derivation are read as its tree. -/
theorem readsThrough_of_derives
    (limit : Int)
    {level : Level}
    {ts : List PlacedToken}
    {e : Expr}
    (hDerives : Derives level ts e) :
    ReadsThrough limit level ts e := by
  induction hDerives with
  | ofProduct h ih =>
      intro outer rest
      rcases ih outer {} rest rfl rfl with
        ⟨q, x, hRead, hSum, rfl⟩
      refine ⟨q, x, hRead, ?_⟩
      rw [Pending.sumOf, hSum, Pending.complete]
  | @sum ts us t op l r hLeft hOp hRight ihLeft ihRight =>
      intro outer rest
      rcases ihLeft outer (t :: (us ++ rest)) with
        ⟨q, x, hLeftRead, rfl⟩
      rcases ihRight outer (q.plusAfter x op) rest
          rfl rfl with
        ⟨q', x', hRightRead, hSum, rfl⟩
      refine ⟨q', x', ?_, ?_⟩
      · rw [List.append_assoc, List.cons_append, hLeftRead,
          operator_sum hOp, hRightRead]
      · rw [Pending.sumOf, hSum, Pending.plusAfter,
          Pending.complete]
  | ofFactor h ih =>
      intro outer p rest hProduct hUnsigned
      rcases ih outer p rest hUnsigned with
        ⟨sign, x, hRead, rfl⟩
      refine ⟨_, x, hRead, rfl, ?_⟩
      rw [Pending.productOf, hProduct, Pending.complete]
  | @product ts us t op l r hLeft hOp hRight ihLeft
      ihRight =>
      intro outer p rest hProduct hUnsigned
      rcases ihLeft outer p (t :: (us ++ rest))
          hProduct hUnsigned with
        ⟨q, x, hLeftRead, hSum, rfl⟩
      rcases ihRight outer (q.timesAfter x op) rest rfl with
        ⟨sign, x', hRightRead, rfl⟩
      refine ⟨{ q.timesAfter x op with sign := sign }, x',
        ?_, hSum, rfl⟩
      rw [List.append_assoc, List.cons_append, hLeftRead,
        operator_product hOp, hRightRead]
  | @ofPrimary ts e h ih =>
      intro outer p rest hUnsigned
      have hSame : { p with sign := none } = p := by
        rw [← hUnsigned]
      refine ⟨none, e, ?_, rfl⟩
      rw [hSame, ih outer p rest]
  | @signed t ts op e hSign h ih =>
      intro outer p rest hUnsigned
      refine ⟨some op, e, ?_, rfl⟩
      rw [List.cons_append, operand_sign hSign hUnsigned]
      exact ih outer _ rest
  | number hKind =>
      intro outer p rest
      exact operand_number hKind
  | @group first last ts e hOpen h hClose ih =>
      intro outer p rest
      rcases ih (p :: outer) (last :: rest) with
        ⟨q, x, hRead, rfl⟩
      rw [List.cons_append, List.cons_append,
        operand_open hOpen, List.append_assoc]
      exact hRead.trans (operator_close hClose)

/- A derived list of tokens is read to its end. -/
theorem read_eq_tree_of_derives
    (limit : Int)
    {ts : List PlacedToken}
    {e : Expr}
    (hDerives : Derives .sum ts e) :
    read limit ts = .tree e [] := by
  rcases readsThrough_of_derives limit hDerives [] [] with
    ⟨q, x, hRead, rfl⟩
  rw [List.append_nil] at hRead
  rw [read, hRead, operator, finish]

end Parser

/- No list of tokens has two trees. -/
theorem Grammar.Derives.unique
    {ts : List PlacedToken}
    {e e' : Expr}
    (hFirst : Derives .sum ts e)
    (hSecond : Derives .sum ts e') :
    e = e' := by
  have hRead := Parser.read_eq_tree_of_derives 0 hFirst
  rw [Parser.read_eq_tree_of_derives 0 hSecond] at hRead
  cases hRead
  rfl

------------------------------------------------------------
-- Parsing Whole Lists
------------------------------------------------------------

namespace Expr

open Grammar

/- A list is parsed if reading comes to its end. -/
theorem parse_eq_ok_iff
    {limit : Int}
    {ts : List PlacedToken}
    {e : Expr} :
    parse limit ts = .ok e ↔
      Parser.read limit ts = .tree e [] := by
  unfold parse Cursor.expr
  cases hRead : Parser.read limit ts with
  | stuck err rest => simp
  | tree e' rest =>
      cases rest with
      | nil => simp [Cursor.peek?]
      | cons t rest => simp [Cursor.peek?]

theorem derives_of_parse_eq_ok
    {limit : Int}
    {ts : List PlacedToken}
    {e : Expr}
    (hParse : parse limit ts = .ok e) :
    Derives .sum ts e := by
  rcases Parser.derives_of_read_eq_tree
      (parse_eq_ok_iff.mp hParse) with
    ⟨us, rfl, hDerives⟩
  rwa [List.append_nil]

/-
  A list of tokens is parsed as a tree if and only if all of
  it derives from the grammar's sums with that tree, so that
  no list of tokens has two trees.
-/
theorem parse_eq_ok_iff_derives
    (limit : Int)
    (ts : List PlacedToken) :
    (∀ e, parse limit ts = .ok e ↔ Derives .sum ts e) ∧
      ∀ e e', Derives .sum ts e → Derives .sum ts e' →
        e = e' := by
  have hParse :
      ∀ e, parse limit ts = .ok e ↔
        Derives .sum ts e := by
    intro e
    rw [parse_eq_ok_iff]
    constructor
    · intro hRead
      rcases Parser.derives_of_read_eq_tree hRead with
        ⟨us, hTokens, hDerives⟩
      rw [List.append_nil] at hTokens
      rw [hTokens]
      exact hDerives
    · exact Parser.read_eq_tree_of_derives limit
  exact ⟨hParse, fun e e' => Derives.unique⟩

/- The sign in `-(1-2)*3` belongs to its group. -/
theorem derives_signed_group :
    let ts : List PlacedToken :=
      [⟨0, .ofKind .minus⟩, ⟨1, .ofKind .openParen⟩,
        ⟨2, .ofNumber 1⟩, ⟨3, .ofKind .minus⟩,
        ⟨4, .ofNumber 2⟩, ⟨5, .ofKind .closeParen⟩,
        ⟨6, .ofKind .asterisk⟩, ⟨7, .ofNumber 3⟩]
    let tree : Expr :=
      .binary .mul
        (.unary .minus
          (.binary .sub (.number 1) (.number 2)))
        (.number 3)
    Derives .sum ts tree ∧
      ∀ e, Derives .sum ts e → e = tree := by
  intro ts tree
  rcases parse_eq_ok_iff_derives 8 ts with
    ⟨hParse, hUnique⟩
  have hTree : Derives .sum ts tree :=
    (hParse tree).mp rfl
  refine ⟨hTree, ?_⟩
  intro e hDerives
  exact hUnique e tree hDerives hTree

end Expr

end ExprCompiler
