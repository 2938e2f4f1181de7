import ExprCompiler.Proofs.LongestExpression

/-
  Any calls in a row on one cursor.

  Key definitions include:
    * `Grammar.StuckBefore`
    * `Call`
    * `Cursor.move`
    * `Cursor.after`
    * `Cursor.position`

  Main declarations:
    * `Parser.stuckBefore_of_read_eq_stuck`
    * `Cursor.suffix_move`
    * `Cursor.suffix_after`
    * `Cursor.calls_follow_tokens`

  No call goes back, and a call that fails has taken just
  the tokens that can begin an expression. So the cursor is
  then at the token that the error is about, and further
  calls go on from there.
-/

------------------------------------------------------------
-- What Reading Takes
------------------------------------------------------------

namespace ExprCompiler

namespace Grammar

/- Every expression has at least one token. -/
theorem Derives.ne_nil
    {level : Level}
    {ts : List PlacedToken}
    {e : Expr}
    (hDerives : Derives level ts e) :
    ts ≠ [] := by
  induction hDerives with
  | ofProduct h ih => exact ih
  | ofFactor h ih => exact ih
  | ofPrimary h ih => exact ih
  | _ => simp

/-
  Tokens begin an expression, but the next token does not go
  on with it, nor are they one if there is no next token.
-/
def StuckBefore
    (us rest : List PlacedToken) :
    Prop :=
  Viable us ∧
    (∀ t ∈ rest.head?, ¬ Viable (us ++ [t])) ∧
    (rest = [] → ∀ e, ¬ Derives .sum us e)

end Grammar

namespace Parser

open Grammar

namespace Place

/- The error at a place is about the token found there. -/
theorem eq_of_stop_eq_stuck
    {limit : Int}
    {s : Place}
    {err : ParseError}
    {rest rest' : List PlacedToken}
    (hStop : s.stop limit rest = .stuck err rest') :
    rest = rest' ∧
      ∃ expected,
        err = .ofFound limit expected rest.head? := by
  cases s with
  | operand outer p =>
      cases hStop
      exact ⟨rfl, .number, rfl⟩
  | operator outer p x =>
      cases outer with
      | nil => cases hStop
      | cons q outer =>
          cases hStop
          exact ⟨rfl, .closeParen, rfl⟩

end Place

/-
  A reading that fails is stuck before what it leaves. Its
  error, which comes through all groups that are open then,
  is about the first token of that.
-/
theorem stuckBefore_of_read_eq_stuck
    {limit : Int}
    {ts rest : List PlacedToken}
    {err : ParseError}
    (hRead : read limit ts = .stuck err rest) :
    ∃ us expected,
      ts = us ++ rest ∧ StuckBefore us rest ∧
        err = .ofFound limit expected rest.head? := by
  rcases (Place.operand [] {}).exists_stop limit ts with
    ⟨us, rest', s, rfl, hConsumes, hReads, hStop, hNext⟩
  have hLeads :
      ∀ more, read limit (us ++ more) = s.read limit more :=
    hReads
  rcases Place.eq_of_stop_eq_stuck
      (hStop.symm.trans ((hLeads rest').symm.trans hRead))
    with ⟨rfl, expected, hError⟩
  refine ⟨us, expected, rfl, ⟨?_, ?_, ?_⟩, hError⟩
  · exact (hConsumes [] Pending.readFrom_nil).viable
  · rintro t hHead ⟨more, e, hDerives⟩
    rw [List.append_assoc] at hDerives
    have hTree := read_eq_tree_of_derives limit hDerives
    rw [hLeads] at hTree
    exact Place.stop_cons_ne_tree_nil
      ((hNext t hHead more).symm.trans hTree)
  · rintro rfl e hDerives
    rw [List.append_nil,
      read_eq_tree_of_derives limit hDerives] at hRead
    cases hRead

end Parser

------------------------------------------------------------
-- Calls
------------------------------------------------------------

/- A call on a cursor. -/
inductive Call where
  | peek
  | advance
  | offset
  | expr
deriving DecidableEq, Repr

namespace Cursor

open Grammar

/- The cursor behind a call; two kinds of calls move it. -/
def move
    (c : Cursor) :
    Call → Cursor
| .peek => c
| .advance => c.advance
| .offset => c
| .expr => c.expr.2

/- The cursor behind calls in a row. -/
def after
    (c : Cursor)
    (calls : List Call) :
    Cursor :=
  calls.foldl move c

/- How many of the given tokens have been passed. -/
def position
    (ts : List PlacedToken)
    (c : Cursor) :
    Nat :=
  ts.length - c.rest.length

theorem limit_move
    (c : Cursor)
    (call : Call) :
    (c.move call).limit = c.limit := by
  cases call with
  | expr =>
      unfold move expr
      cases Parser.read c.limit c.rest <;> rfl
  | _ => rfl

section Reading

variable {c : Cursor}

/- A reading that succeeds takes a token at least. -/
theorem exists_rest_of_expr_eq_ok
    {e : Expr}
    (hExpr : c.expr.1 = .ok e) :
    ∃ us, us ≠ [] ∧ c.rest = us ++ (c.move .expr).rest := by
  have hRead := (expr_eq_ok_iff.mp (Prod.ext hExpr rfl)).1
  rcases Parser.derives_of_read_eq_tree hRead with
    ⟨us, hTokens, hDerives⟩
  exact ⟨us, hDerives.ne_nil, hTokens⟩

/- A reading that fails reports what the cursor is at then. -/
theorem exists_rest_of_expr_eq_error
    {err : ParseError}
    (hExpr : c.expr.1 = .error err) :
    ∃ us expected,
      c.rest = us ++ (c.move .expr).rest ∧
        StuckBefore us (c.move .expr).rest ∧
        err =
          .ofFound c.limit expected
            (c.move .expr).peek? := by
  unfold move expr at *
  cases hRead : Parser.read c.limit c.rest with
  | tree e rest =>
      rw [hRead] at hExpr
      cases hExpr
  | stuck err' rest =>
      rw [hRead] at hExpr
      cases hExpr
      exact Parser.stuckBefore_of_read_eq_stuck hRead

/- An error about what a cursor is at has its offset. -/
theorem offset_ofFound
    (c : Cursor)
    (expected : Expectation) :
    (ParseError.ofFound c.limit expected c.peek?).offset =
      c.offset := by
  rcases c with ⟨_ | ⟨t, rest⟩, limit⟩
  · rfl
  · rfl

end Reading

------------------------------------------------------------
-- Runs
------------------------------------------------------------

/- A call leaves an end of the tokens that were left. -/
theorem suffix_move
    (c : Cursor)
    (call : Call) :
    (c.move call).rest <:+ c.rest := by
  cases call with
  | peek => exact List.suffix_refl c.rest
  | advance => exact List.tail_suffix c.rest
  | offset => exact List.suffix_refl c.rest
  | expr =>
      cases hExpr : c.expr.1 with
      | ok e =>
          rcases exists_rest_of_expr_eq_ok hExpr with
            ⟨us, _, hTokens⟩
          exact ⟨us, hTokens.symm⟩
      | error err =>
          rcases exists_rest_of_expr_eq_error hExpr with
            ⟨us, _, hTokens, _⟩
          exact ⟨us, hTokens.symm⟩

theorem limit_after
    (c : Cursor)
    (calls : List Call) :
    (c.after calls).limit = c.limit := by
  induction calls generalizing c with
  | nil => rfl
  | cons call calls ih =>
      exact (ih (c.move call)).trans (c.limit_move call)

theorem suffix_after
    (c : Cursor)
    (calls : List Call) :
    (c.after calls).rest <:+ c.rest := by
  induction calls generalizing c with
  | nil => exact List.suffix_refl c.rest
  | cons call calls ih =>
      exact (ih (c.move call)).trans (c.suffix_move call)

------------------------------------------------------------
-- Positions
------------------------------------------------------------

section Positions

variable {ts : List PlacedToken} {c stop : Cursor}

theorem position_add_length
    (hWithin : c.rest <:+ ts) :
    c.position ts + c.rest.length = ts.length :=
  Nat.sub_add_cancel hWithin.length_le

theorem position_le_position
    (hSuffix : stop.rest <:+ c.rest) :
    c.position ts ≤ stop.position ts := by
  have hLength := hSuffix.length_le
  unfold position
  omega

theorem position_lt_position
    {us : List PlacedToken}
    (hWithin : c.rest <:+ ts)
    (hTokens : c.rest = us ++ stop.rest)
    (hNonempty : us ≠ []) :
    c.position ts < stop.position ts := by
  have hLength := hWithin.length_le
  have hTaken := List.length_pos_iff.mpr hNonempty
  have hSplit := congrArg List.length hTokens
  rw [List.length_append] at hSplit
  unfold position
  omega

end Positions

/-
  After any calls the cursor is at a position in the tokens:
  those passed and those left are together all of them. No
  further calls go back from there. A reading that succeeds
  moves on. A reading that fails ends at the first token
  that does not go on with an expression, or at the end of
  the tokens, and its error has the offset and the text that
  are found there.
-/
theorem calls_follow_tokens
    (ts : List PlacedToken)
    (limit : Int)
    (calls : List Call) :
    let c := (Cursor.mk ts limit).after calls
    let stop := c.move .expr
    c = ⟨ts.drop (c.position ts), limit⟩ ∧
      c.position ts + c.rest.length = ts.length ∧
      c.peek? = ts[c.position ts]? ∧
      (∀ more, c.position ts ≤ (c.after more).position ts) ∧
      (∀ e, c.expr.1 = .ok e →
        c.position ts < stop.position ts) ∧
      ∀ err, c.expr.1 = .error err →
        err.offset = stop.offset ∧
          err.found = stop.peek?.map (·.token.text) ∧
          (err.found.getD "" = "" ↔ stop.peek? = none) ∧
          ∃ us, c.rest = us ++ stop.rest ∧
            StuckBefore us stop.rest := by
  intro c stop
  have hWithin : c.rest <:+ ts := suffix_after _ calls
  have hRest : c.rest = ts.drop (c.position ts) :=
    List.suffix_iff_eq_drop.mp hWithin
  have hLimit : c.limit = limit := limit_after _ calls
  refine ⟨?_, position_add_length hWithin, ?_, ?_, ?_, ?_⟩
  · rw [← hRest, ← hLimit]
  · rw [peek?, hRest, List.head?_drop]
  · intro more
    exact position_le_position (c.suffix_after more)
  · intro e hExpr
    rcases exists_rest_of_expr_eq_ok hExpr with
      ⟨us, hNonempty, hTokens⟩
    exact position_lt_position hWithin hTokens hNonempty
  · intro err hExpr
    rcases exists_rest_of_expr_eq_error hExpr with
      ⟨us, expected, hTokens, hStuck, rfl⟩
    rw [ParseError.found_ofFound, ← c.limit_move .expr]
    refine ⟨stop.offset_ofFound expected, rfl, ?_, us,
      hTokens, hStuck⟩
    change (stop.peek?.map (·.token.text)).getD "" = "" ↔ _
    cases stop.peek? with
    | none => simp
    | some t => simp [t.token.text_ne_empty]

/-
  Of `1+)2`, reading takes the first two tokens and fails at
  the third. It does so once more if it is tried again, and
  behind that token it succeeds.
-/
theorem calls_follow_tokens_behind_misfit :
    let ts : List PlacedToken :=
      [⟨0, .ofNumber 1⟩, ⟨1, .ofKind .plus⟩,
        ⟨2, .ofKind .closeParen⟩, ⟨3, .ofNumber 2⟩]
    let err : ParseError := ⟨2, .number, some ")"⟩
    let start : Cursor := ⟨ts, 4⟩
    let again := start.after [.peek, .expr, .offset]
    let behind := start.after [.expr, .advance]
    start.expr.1 = .error err ∧
      (start.move .expr).position ts = 2 ∧
      err.found = ts[2]?.map (·.token.text) ∧
      again.expr.1 = .error err ∧
      StuckBefore [] (again.move .expr).rest ∧
      behind.expr.1 = .ok (.number 2) ∧
      behind.position ts <
        (behind.move .expr).position ts := by
  intro ts err start again behind
  have hFirst : start.expr.1 = .error err := by
    rfl
  have hAgain : again.expr.1 = .error err := by
    rfl
  have hBehind : behind.expr.1 = .ok (.number 2) := by
    rfl
  rcases calls_follow_tokens ts 4 [] with
    ⟨_, _, _, _, _, hFails⟩
  rcases calls_follow_tokens ts 4 [.expr] with
    ⟨_, _, hPeek, _⟩
  rcases calls_follow_tokens ts 4 [.peek, .expr, .offset]
    with ⟨_, _, _, _, _, hFailsAgain⟩
  rcases calls_follow_tokens ts 4 [.expr, .advance] with
    ⟨_, _, _, _, hOnward, _⟩
  rcases hFails err hFirst with ⟨_, hFound, _⟩
  rcases hFailsAgain err hAgain with
    ⟨_, _, _, us, hTokens, hStuck⟩
  have hNone : us = [] :=
    List.append_left_eq_self.mp hTokens.symm
  subst hNone
  exact ⟨hFirst, rfl, hFound.trans (congrArg _ hPeek),
    hAgain, hStuck, hBehind, hOnward _ hBehind⟩

end Cursor

end ExprCompiler
