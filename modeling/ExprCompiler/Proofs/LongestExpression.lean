import ExprCompiler.Proofs.ViablePrefixes

/-
  Reading takes the longest expression.

  Key definitions include:
    * `Grammar.Unfollowed`

  Main declarations:
    * `Parser.read_append_of_derives`
    * `Parser.unfollowed_of_read_eq_tree`
    * `Grammar.eq_of_unfollowed`
    * `Cursor.expr_takes_longest`

  An operator behind an expression has to be followed by an
  operand. So reading succeeds if and only if no operator is
  left behind an expression, and then there is just one
  expression at which it can stop.
-/

------------------------------------------------------------
-- Ends of Expressions
------------------------------------------------------------

namespace ExprCompiler

namespace Grammar

/- Tokens do not go on with an operator. -/
def Unfollowed
    (rest : List PlacedToken) :
    Prop :=
  ∀ t ∈ rest.head?,
    t.token.kind ∉ [.plus, .minus, .asterisk, .slash]

theorem unfollowed_nil :
    Unfollowed [] := by
  simp [Unfollowed]

theorem unfollowed_cons_iff
    {t : PlacedToken}
    {rest : List PlacedToken} :
    Unfollowed (t :: rest) ↔
      t.token.kind.sumOp? = none ∧
        t.token.kind.productOp? = none := by
  cases hKind : t.token.kind <;>
    simp [Unfollowed, hKind, TokenKind.sumOp?,
      TokenKind.productOp?]

theorem Unfollowed.of_append
    {ts rest : List PlacedToken}
    (hAll : Unfollowed (ts ++ rest)) :
    Unfollowed ts := by
  cases ts with
  | nil => exact unfollowed_nil
  | cons t ts =>
      exact unfollowed_cons_iff.mpr
        (unfollowed_cons_iff.mp hAll)

end Grammar

------------------------------------------------------------
-- Where Reading Stops
------------------------------------------------------------

namespace Parser

open Grammar

/- Outside of groups, an expression ends at no operator. -/
theorem operator_of_unfollowed
    (limit : Int)
    {rest : List PlacedToken}
    (hRest : Unfollowed rest)
    (p : Pending)
    (x : Expr) :
    operator limit [] p x rest =
      .tree (p.sumOf x) rest := by
  cases rest with
  | nil => rw [operator, finish]
  | cons t rest =>
      rcases unfollowed_cons_iff.mp hRest with
        ⟨hSum, hProduct⟩
      rcases operator_cons_cases limit [] p x t rest with
        ⟨op, hOp, _⟩ | ⟨op, hOp, _⟩ |
          ⟨_, _, _, hOuter, _⟩ | ⟨_, _, _, hFinish⟩
      · simp [hProduct] at hOp
      · simp [hSum] at hOp
      · cases hOuter
      · rw [hFinish, finish]

/- What derives is read up to tokens that end it. -/
theorem read_append_of_derives
    (limit : Int)
    {us rest : List PlacedToken}
    {e : Expr}
    (hDerives : Derives .sum us e)
    (hRest : Unfollowed rest) :
    read limit (us ++ rest) = .tree e rest := by
  rcases readsThrough_of_derives limit hDerives [] rest with
    ⟨p, x, hRead, rfl⟩
  rw [read, hRead, operator_of_unfollowed limit hRest]

/- Reading does not stop in front of an operator. -/
theorem unfollowed_of_read_eq_tree
    {limit : Int}
    {ts rest : List PlacedToken}
    {e : Expr}
    (hRead : read limit ts = .tree e rest) :
    Unfollowed rest := by
  rcases (Place.operand [] {}).exists_stop limit ts with
    ⟨us, rest', s, rfl, _, hLeads, hStop, hStops⟩
  have hTree : s.stop limit rest' = .tree e rest := by
    rw [← hStop, ← hLeads]
    exact hRead
  cases s with
  | operand outer p => cases hTree
  | operator outer p x =>
      rcases finish_eq_tree_iff.mp hTree with ⟨rfl, _, rfl⟩
      cases rest' with
      | nil => exact unfollowed_nil
      | cons t rest =>
          -- An operator would lead on to an operand, and
          -- there is none behind it when it is the last.
          have hLast := hStops t rfl []
          rw [unfollowed_cons_iff,
            Option.eq_none_iff_forall_ne_some,
            Option.eq_none_iff_forall_ne_some]
          constructor
          · intro op hOp
            rw [(Place.leads_sum hOp).2 limit []] at hLast
            simp [Place.read, Place.stop, finish,
              operand] at hLast
          · intro op hOp
            rw [(Place.leads_product hOp).2 limit []] at hLast
            simp [Place.read, Place.stop, finish,
              operand] at hLast

end Parser

------------------------------------------------------------
-- The Longest Expression
------------------------------------------------------------

namespace Grammar

/- Only one expression of a list is not followed. -/
theorem eq_of_unfollowed
    {us us' rest rest' : List PlacedToken}
    {e e' : Expr}
    (hTokens : us ++ rest = us' ++ rest')
    (hDerives : Derives .sum us e)
    (hDerives' : Derives .sum us' e')
    (hRest : Unfollowed rest)
    (hRest' : Unfollowed rest') :
    us = us' := by
  have hRead :=
    Parser.read_append_of_derives 0 hDerives hRest
  rw [hTokens,
    Parser.read_append_of_derives 0 hDerives' hRest']
    at hRead
  cases hRead
  exact List.append_cancel_right hTokens

/- No expression goes on where nothing follows it. -/
theorem not_derives_of_unfollowed
    {us us' rest rest' : List PlacedToken}
    {e e' : Expr}
    (hTokens : us ++ rest = us' ++ rest')
    (hDerives : Derives .sum us e)
    (hRest : Unfollowed rest)
    (hLonger : us.length < us'.length) :
    ¬ Derives .sum us' e' := by
  intro hDerives'
  rcases List.append_eq_append_iff.mp hTokens with
    ⟨more, rfl, rfl⟩ | ⟨more, rfl, _⟩
  · -- Read alone, the longer tokens would have two ends at
    -- which no operator follows.
    have hSame :=
      eq_of_unfollowed (List.append_nil _).symm hDerives
        hDerives' hRest.of_append unfollowed_nil
    rw [← hSame] at hLonger
    omega
  · rw [List.length_append] at hLonger
    omega

end Grammar

namespace Cursor

open Grammar

/- Reading at a cursor succeeds if reading its tokens does. -/
theorem expr_eq_ok_iff
    {c stop : Cursor}
    {e : Expr} :
    c.expr = (.ok e, stop) ↔
      Parser.read c.limit c.rest = .tree e stop.rest ∧
        stop.limit = c.limit := by
  unfold expr
  cases Parser.read c.limit c.rest with
  | stuck err rest => simp
  | tree e' rest =>
      rcases stop with ⟨rest', limit⟩
      simp [and_assoc, eq_comm (a := limit)]

/-
  An expression is read at a cursor if and only if some
  expression at its head is not followed by an operator.
  There is then one such expression, its tree is returned,
  the cursor stands behind it, and nothing longer at the
  head of the tokens is an expression.
-/
theorem expr_takes_longest
    (c : Cursor) :
    ((∃ e, c.expr.1 = .ok e) ↔
        ∃ us rest e, c.rest = us ++ rest ∧
          Derives .sum us e ∧ Unfollowed rest) ∧
      ∀ us rest e, c.rest = us ++ rest →
        Derives .sum us e → Unfollowed rest →
          c.expr = (.ok e, { c with rest := rest }) ∧
            (∀ us' rest' e', c.rest = us' ++ rest' →
              Derives .sum us' e' → Unfollowed rest' →
                us' = us) ∧
            ∀ us' rest' e', c.rest = us' ++ rest' →
              us.length < us'.length →
                ¬ Derives .sum us' e' := by
  have hExpr :
      ∀ us rest e, c.rest = us ++ rest →
        Derives .sum us e → Unfollowed rest →
          c.expr = (.ok e, { c with rest := rest }) := by
    intro us rest e hTokens hDerives hRest
    rw [expr_eq_ok_iff, hTokens]
    exact
      ⟨Parser.read_append_of_derives c.limit hDerives hRest,
        rfl⟩
  refine ⟨⟨?_, ?_⟩, ?_⟩
  · rintro ⟨e, hOk⟩
    have hRead :=
      (expr_eq_ok_iff.mp (Prod.ext hOk rfl)).1
    rcases Parser.derives_of_read_eq_tree hRead with
      ⟨us, hTokens, hDerives⟩
    exact ⟨us, _, e, hTokens, hDerives,
      Parser.unfollowed_of_read_eq_tree hRead⟩
  · rintro ⟨us, rest, e, hTokens, hDerives, hRest⟩
    exact ⟨e, by
      rw [hExpr us rest e hTokens hDerives hRest]⟩
  · intro us rest e hTokens hDerives hRest
    refine ⟨hExpr us rest e hTokens hDerives hRest, ?_, ?_⟩
    · intro us' rest' e' hTokens' hDerives' hRest'
      exact eq_of_unfollowed (hTokens'.symm.trans hTokens)
        hDerives' hDerives hRest' hRest
    · intro us' rest' e' hTokens' hLonger
      exact not_derives_of_unfollowed
        (hTokens.symm.trans hTokens') hDerives hRest hLonger

/-
  Of `2-(1) (3`, the group that is left open is not read,
  and neither is the whole an expression.
-/
theorem expr_stops_at_group :
    let us : List PlacedToken :=
      [⟨0, .ofNumber 2⟩, ⟨1, .ofKind .minus⟩,
        ⟨2, .ofKind .openParen⟩, ⟨3, .ofNumber 1⟩,
        ⟨4, .ofKind .closeParen⟩]
    let rest : List PlacedToken :=
      [⟨6, .ofKind .openParen⟩, ⟨7, .ofNumber 3⟩]
    let tree : Expr := .binary .sub (.number 2) (.number 1)
    expr ⟨us ++ rest, 8⟩ = (.ok tree, ⟨rest, 8⟩) ∧
      ∀ e, ¬ Derives .sum (us ++ rest) e := by
  intro us rest tree
  have hParse : Expr.parse 5 us = .ok tree := by
    rfl
  have hDerives := Expr.derives_of_parse_eq_ok hParse
  have hRest : Unfollowed rest := by
    simp [rest, unfollowed_cons_iff, Token.ofKind,
      TokenKind.sumOp?, TokenKind.productOp?]
  rcases (expr_takes_longest ⟨us ++ rest, 8⟩).2 us rest tree
      rfl hDerives hRest with
    ⟨hExpr, _, hLonger⟩
  refine ⟨hExpr, fun e => ?_⟩
  exact hLonger (us ++ rest) [] e (by simp)
    (by simp [us, rest])

end Cursor

end ExprCompiler
