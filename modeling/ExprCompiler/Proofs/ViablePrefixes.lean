import ExprCompiler.Proofs.ParserCorrectness

/-
  Errors of parsing are reported as early as possible.

  Key definitions include:
    * `Grammar.Viable`
    * `Parser.Place`
    * `Parser.Place.Consumed`

  Main declarations:
    * `Parser.Place.step_cases`
    * `Parser.Place.exists_stop`
    * `Parser.Place.Consumed.viable`
    * `Expr.parse_error_at_first_misfit`

  Between two tokens the parser is at a place, before an
  operand or behind one. A token leads from a place to the
  next or stops the parser whatever comes behind it. At
  every place the tokens so far can be completed to an
  expression.
-/

------------------------------------------------------------
-- Viable Beginnings
------------------------------------------------------------

namespace ExprCompiler

namespace Grammar

/- Tokens can be completed to an expression. -/
def Viable
    (ts : List PlacedToken) :
    Prop :=
  ∃ us e, Derives .sum (ts ++ us) e

theorem Viable.of_append
    {ts us : List PlacedToken}
    (hViable : Viable (ts ++ us)) :
    Viable ts := by
  rcases hViable with ⟨vs, e, hDerives⟩
  rw [List.append_assoc] at hDerives
  exact ⟨us ++ vs, e, hDerives⟩

end Grammar

------------------------------------------------------------
-- Places Between Tokens
------------------------------------------------------------

namespace Parser

open Grammar

/- Where a primary is read, all open groups can be closed. -/
theorem Consumed.viable
    {outer : List Pending}
    {p : Pending}
    {ts vs : List PlacedToken}
    {x : Expr}
    (hConsumed : Consumed outer p ts)
    (hPrimary : Derives .primary vs x) :
    Viable (ts ++ vs) := by
  induction outer generalizing p ts vs x with
  | nil =>
      refine ⟨[], p.sumOf x, ?_⟩
      rw [List.append_nil]
      exact Pending.ReadFrom.derives_sumOf hConsumed
        hPrimary
  | cons q outer ih =>
      rcases hConsumed with
        ⟨before, t, inner, rfl, hBefore, hOpen, hRead⟩
      let last : PlacedToken := ⟨0, .ofKind .closeParen⟩
      have hGroup :
          Derives .primary (t :: (inner ++ vs) ++ [last])
            (p.sumOf x) :=
        .group hOpen (hRead.derives_sumOf hPrimary) rfl
      have hViable :
          Viable (before ++ t :: inner ++ vs ++ [last]) := by
        simpa using ih hBefore hGroup
      exact hViable.of_append

/- Before an operand or behind a primary. -/
inductive Place where
  | operand (outer : List Pending) (p : Pending)
  | operator
      (outer : List Pending)
      (p : Pending)
      (primary : Expr)

namespace Place

/- Reads on from a place. -/
def read
    (limit : Int) :
    Place → List PlacedToken → Reading
| .operand outer p => Parser.operand limit outer p
| .operator outer p x => Parser.operator limit outer p x

/- Stops at a place, in front of the given tokens. -/
def stop
    (limit : Int)
    (s : Place)
    (rest : List PlacedToken) :
    Reading :=
  match s with
  | .operand _ _ =>
      .stuck (.ofFound limit .number rest.head?) rest
  | .operator outer p x => finish limit outer (p.sumOf x) rest

/- What is missed at a place when reading stops there. -/
def expected : Place → Expectation
| .operand _ _ => .number
| .operator [] _ _ => .operator
| .operator (_ :: _) _ _ => .closeParen

/- The tokens that lead to a place. -/
def Consumed : Place → List PlacedToken → Prop
| .operand outer p, ts => Parser.Consumed outer p ts
| .operator outer p x, ts =>
    ∃ before vs,
      ts = before ++ vs ∧ Parser.Consumed outer p before ∧
        Derives .primary vs x

/- A token leads to another place. -/
def Leads
    (s : Place)
    (t : PlacedToken)
    (s' : Place) :
    Prop :=
  (∀ ts, s.Consumed ts → s'.Consumed (ts ++ [t])) ∧
    ∀ limit rest, s.read limit (t :: rest) = s'.read limit rest

theorem read_nil
    (limit : Int)
    (s : Place) :
    s.read limit [] = s.stop limit [] := by
  cases s with
  | operand outer p =>
      simp only [read, stop, Parser.operand, List.head?_nil]
  | operator outer p x =>
      simp only [read, stop, Parser.operator]

end Place

------------------------------------------------------------
-- Steps Between Places
------------------------------------------------------------

namespace Place

section Steps

variable {outer : List Pending} {p : Pending}
variable {x : Expr} {t : PlacedToken}

theorem leads_number
    (hKind : t.token.kind = .number) :
    (operand outer p).Leads t
      (.operator outer p (.number t.token.value)) := by
  refine ⟨?_, fun _ rest => operand_number hKind⟩
  intro ts hConsumed
  exact ⟨ts, [t], rfl, hConsumed, .number hKind⟩

theorem leads_open
    (hKind : t.token.kind = .openParen) :
    (operand outer p).Leads t
      (.operand (p :: outer) {}) := by
  refine ⟨?_, fun _ rest => operand_open hKind⟩
  intro ts hConsumed
  exact Consumed.open hConsumed hKind

theorem leads_sign
    {op : UnaryOp}
    (hSign : t.token.kind.sign? = some op)
    (hUnsigned : p.sign = none) :
    (operand outer p).Leads t
      (.operand outer (p.withSign op)) := by
  refine ⟨?_, fun _ rest => operand_sign hSign hUnsigned⟩
  intro ts hConsumed
  exact Parser.Consumed.extend hConsumed
    fun inner hRead => hRead.withSign hUnsigned hSign

theorem leads_product
    {op : BinaryOp}
    (hOp : t.token.kind.productOp? = some op) :
    (operator outer p x).Leads t
      (.operand outer (p.timesAfter x op)) := by
  refine ⟨?_, fun _ rest => operator_product hOp⟩
  rintro ts ⟨before, vs, rfl, hConsumed, hPrimary⟩
  rw [List.append_assoc]
  refine hConsumed.extend fun inner hRead => ?_
  rw [← List.append_assoc]
  exact hRead.timesAfter hPrimary hOp

theorem leads_sum
    {op : BinaryOp}
    (hOp : t.token.kind.sumOp? = some op) :
    (operator outer p x).Leads t
      (.operand outer (p.plusAfter x op)) := by
  refine ⟨?_, fun _ rest => operator_sum hOp⟩
  rintro ts ⟨before, vs, rfl, hConsumed, hPrimary⟩
  rw [List.append_assoc]
  refine hConsumed.extend fun inner hRead => ?_
  rw [← List.append_assoc]
  exact hRead.plusAfter hPrimary hOp

/- A group that is closed is a primary of the one around. -/
theorem leads_close
    {q : Pending}
    (hKind : t.token.kind = .closeParen) :
    (operator (q :: outer) p x).Leads t
      (.operator outer q (p.sumOf x)) := by
  refine ⟨?_, fun _ rest => operator_close hKind⟩
  rintro ts ⟨_, vs, rfl, hConsumed, hPrimary⟩
  rcases hConsumed with
    ⟨before, first, inner, rfl, hBefore, hOpen, hRead⟩
  exact ⟨before, first :: (inner ++ vs) ++ [t], by simp,
    hBefore,
    .group hOpen (hRead.derives_sumOf hPrimary) hKind⟩

end Steps

/- A token leads on, or it stops reading in any case. -/
theorem step_cases
    (s : Place)
    (t : PlacedToken) :
    (∃ s', s.Leads t s') ∨
      ∀ limit rest,
        s.read limit (t :: rest) = s.stop limit (t :: rest) := by
  cases s with
  | operand outer p =>
      rcases operand_cons_cases 0 outer p t [] with
        ⟨hKind, _⟩ | ⟨hKind, _⟩ | ⟨op, hSign, hNone, _⟩ |
          ⟨hNumber, hOpen, hSign, _⟩
      · exact .inl ⟨_, leads_number hKind⟩
      · exact .inl ⟨_, leads_open hKind⟩
      · exact .inl ⟨_, leads_sign hSign hNone⟩
      · right
        intro limit rest
        rcases operand_cons_cases limit outer p t rest with
          ⟨hKind, _⟩ | ⟨hKind, _⟩ | ⟨op, hSome, hNone, _⟩ |
            ⟨_, _, _, hStuck⟩
        · exact absurd hKind hNumber
        · exact absurd hKind hOpen
        · simp [hSome, hNone] at hSign
        · exact hStuck
  | operator outer p x =>
      rcases operator_cons_cases 0 outer p x t [] with
        ⟨op, hOp, _⟩ | ⟨op, hOp, _⟩ |
          ⟨q, more, hClose, rfl, _⟩ |
          ⟨hProduct, hSum, hClose, _⟩
      · exact .inl ⟨_, leads_product hOp⟩
      · exact .inl ⟨_, leads_sum hOp⟩
      · exact .inl ⟨_, leads_close hClose⟩
      · right
        intro limit rest
        rcases operator_cons_cases limit outer p x t rest with
          ⟨op, hOp, _⟩ | ⟨op, hOp, _⟩ |
            ⟨q, more, hKind, rfl, _⟩ | ⟨_, _, _, hFinish⟩
        · simp [hOp] at hProduct
        · simp [hOp] at hSum
        · cases hClose hKind
        · exact hFinish

/-
  Reading stops at some place. The tokens before it lead
  there whatever comes behind them, and so does the next
  token stop it there.
-/
theorem exists_stop
    (limit : Int)
    (s : Place)
    (ts : List PlacedToken) :
    ∃ us rest, ∃ s' : Place,
      ts = us ++ rest ∧
        (∀ before, s.Consumed before →
          s'.Consumed (before ++ us)) ∧
        (∀ more,
          s.read limit (us ++ more) = s'.read limit more) ∧
        s'.read limit rest = s'.stop limit rest ∧
        ∀ t ∈ rest.head?, ∀ more,
          s'.read limit (t :: more) =
            s'.stop limit (t :: more) := by
  induction ts generalizing s with
  | nil =>
      refine ⟨[], [], s, rfl, ?_, fun more => rfl,
        s.read_nil limit, by simp⟩
      intro before hConsumed
      rwa [List.append_nil]
  | cons t ts ih =>
      rcases s.step_cases t with
        ⟨next, hConsumes, hReads⟩ | hStops
      · rcases ih next with
          ⟨us, rest, s', rfl, hBefore, hRead, hStop⟩
        refine ⟨t :: us, rest, s', rfl, ?_, ?_, hStop⟩
        · intro before hConsumed
          have hNext := hBefore _ (hConsumes _ hConsumed)
          rwa [List.append_assoc] at hNext
        · intro more
          rw [List.cons_append, hReads, hRead]
      · refine ⟨[], t :: ts, s, rfl, ?_, fun more => rfl,
          hStops limit ts, ?_⟩
        · intro before hConsumed
          rwa [List.append_nil]
        · intro t' hHead more
          cases hHead
          exact hStops limit more

end Place

------------------------------------------------------------
-- Viability of Places
------------------------------------------------------------

namespace Place

variable {s s' : Place} {ts : List PlacedToken}
variable {t : PlacedToken}

theorem Consumed.viable
    (hConsumed : s.Consumed ts) :
    Viable ts := by
  cases s with
  | operand outer p =>
      let one : PlacedToken := ⟨0, .ofNumber 1⟩
      have hNumber : Derives .primary [one] (.number 1) :=
        .number rfl
      exact (Parser.Consumed.viable hConsumed
        hNumber).of_append
  | operator outer p x =>
      rcases hConsumed with
        ⟨before, vs, rfl, hBefore, hPrimary⟩
      exact hBefore.viable hPrimary

theorem Leads.viable
    (hLeads : s.Leads t s')
    (hConsumed : s.Consumed ts) :
    Viable (ts ++ [t]) :=
  (hLeads.1 ts hConsumed).viable

/- The token that is missed at a place would lead on. -/
theorem Consumed.viable_expected
    (hConsumed : s.Consumed ts) :
    (s.expected.message = "number" ∧
        ∀ t, t.token.kind = .number →
          Viable (ts ++ [t])) ∨
      (s.expected.message = "')'" ∧
        ∀ t, t.token.kind = .closeParen →
          Viable (ts ++ [t])) ∨
      (s.expected.message = "operator" ∧
        ∀ t, t.token.kind ∈
            [.plus, .minus, .asterisk, .slash] →
          Viable (ts ++ [t])) := by
  match s, hConsumed with
  | .operand outer p, hConsumed =>
      refine .inl ⟨rfl, fun t hKind => ?_⟩
      exact (leads_number hKind).viable hConsumed
  | .operator (q :: outer) p x, hConsumed =>
      refine .inr (.inl ⟨rfl, fun t hKind => ?_⟩)
      exact (leads_close hKind).viable hConsumed
  | .operator [] p x, hConsumed =>
      refine .inr (.inr ⟨rfl, fun t hKind => ?_⟩)
      have hOp :
          (∃ op, t.token.kind.sumOp? = some op) ∨
            ∃ op, t.token.kind.productOp? = some op := by
        revert hKind
        cases t.token.kind <;>
          simp [TokenKind.sumOp?, TokenKind.productOp?]
      rcases hOp with ⟨op, hOp⟩ | ⟨op, hOp⟩
      · exact (leads_sum hOp).viable hConsumed
      · exact (leads_product hOp).viable hConsumed

/- In front of a token, reading is not at its end. -/
theorem stop_cons_ne_tree_nil
    {limit : Int}
    {rest : List PlacedToken}
    {e : Expr} :
    s.stop limit (t :: rest) ≠ .tree e [] := by
  match s with
  | .operand outer p => simp [stop]
  | .operator [] p x => simp [stop, finish]
  | .operator (q :: outer) p x => simp [stop, finish]

end Place

end Parser

------------------------------------------------------------
-- Errors of Parsing
------------------------------------------------------------

theorem Token.text_ne_empty
    (t : Token) :
    t.text ≠ "" := by
  cases hKind : t.kind with
  | number => simp [text, hKind]
  | unknown code h =>
      simp [text, hKind, TokenKind.symbol?, TokenKind.name]
  | _ => simp [text, hKind, TokenKind.symbol?]

namespace Expr

open Grammar

/- The error of a parse tells where and why it stopped. -/
theorem eq_error_of_parse
    {limit : Int}
    {ts rest : List PlacedToken}
    {s : Parser.Place}
    {err : ParseError}
    (hRead : Parser.read limit ts = s.stop limit rest)
    (hParse : parse limit ts = .error err) :
    err = .ofFound limit s.expected rest.head? := by
  unfold parse Cursor.expr at hParse
  dsimp only at hParse
  rw [hRead] at hParse
  match s with
  | .operand outer p =>
      cases hParse
      rfl
  | .operator (q :: outer) p x =>
      cases hParse
      rfl
  | .operator [] p x =>
      cases rest with
      | nil => cases hParse
      | cons t rest =>
          cases hParse
          rfl

/- A parse fails in front of a token or at the end. -/
theorem exists_rest_of_parse_eq_error
    {limit : Int}
    {ts : List PlacedToken}
    {err : ParseError}
    (hParse : parse limit ts = .error err) :
    ∃ us rest expected, ts = us ++ rest ∧
      err = .ofFound limit expected rest.head? := by
  rcases (Parser.Place.operand [] {}).exists_stop limit ts
    with
    ⟨us, rest, s, rfl, _, hReads, hStop, _⟩
  exact ⟨us, rest, s.expected, rfl,
    eq_error_of_parse ((hReads rest).trans hStop) hParse⟩

/-
  A parse that fails stops at the first token with which the
  tokens so far cannot be completed, or at the end of tokens
  that are no expression yet. What it expects there would
  have led on.
-/
theorem parse_error_at_first_misfit
    (limit : Int)
    (ts : List PlacedToken)
    (err : ParseError)
    (hParse : parse limit ts = .error err) :
    ∃ k,
      Viable (ts.take k) ∧
        ((k = ts.length ∧ (∀ e, ¬ Derives .sum ts e) ∧
            err.found = none ∧ err.offset = limit) ∨
          (∃ t, ts[k]? = some t ∧
            ¬ Viable (ts.take (k + 1)) ∧
            err.offset = t.offset ∧
            err.found = some t.token.text ∧
            t.token.text ≠ "")) ∧
        ((err.expected.message = "number" ∧
            ∀ u, u.token.kind = .number →
              Viable (ts.take k ++ [u])) ∨
          (err.expected.message = "')'" ∧
            ∀ u, u.token.kind = .closeParen →
              Viable (ts.take k ++ [u])) ∨
          (err.expected.message = "operator" ∧
            ∀ u, u.token.kind ∈
                [.plus, .minus, .asterisk, .slash] →
              Viable (ts.take k ++ [u]))) := by
  rcases (Parser.Place.operand [] {}).exists_stop limit ts
    with
    ⟨us, rest, s, rfl, hConsumes, hReads, hStop, hNext⟩
  have hConsumed : s.Consumed us :=
    hConsumes [] Pending.readFrom_nil
  have hRead :
      ∀ more,
        Parser.read limit (us ++ more) = s.read limit more :=
    hReads
  have hError :=
    eq_error_of_parse ((hRead rest).trans hStop) hParse
  refine ⟨us.length, ?_, ?_, ?_⟩
  · rw [List.take_left]
    exact hConsumed.viable
  · cases rest with
    | nil =>
        left
        rw [List.append_nil] at hParse ⊢
        refine ⟨rfl, ?_, by rw [hError]; rfl,
          by rw [hError]; rfl⟩
        intro e hDerives
        have hOk : parse limit us = .ok e :=
          parse_eq_ok_iff.mpr
            (Parser.read_eq_tree_of_derives limit hDerives)
        rw [hParse] at hOk
        cases hOk
    | cons t rest =>
        right
        have hTake :
            (us ++ t :: rest).take (us.length + 1) =
              us ++ [t] := by
          rw [List.take_length_add_append]
          rfl
        refine ⟨t, by simp, ?_, by rw [hError]; rfl,
          by rw [hError]; rfl, t.token.text_ne_empty⟩
        rw [hTake]
        rintro ⟨more, e, hDerives⟩
        rw [List.append_assoc] at hDerives
        have hTree :=
          Parser.read_eq_tree_of_derives limit hDerives
        rw [hRead] at hTree
        exact Parser.Place.stop_cons_ne_tree_nil
          ((hNext t rfl more).symm.trans hTree)
  · rw [List.take_left, hError,
      ParseError.expected_ofFound]
    exact hConsumed.viable_expected

/- In `(1+2 3)` the second number cannot follow the first. -/
theorem parse_error_in_open_group :
    let ts : List PlacedToken :=
      [⟨0, .ofKind .openParen⟩, ⟨1, .ofNumber 1⟩,
        ⟨2, .ofKind .plus⟩, ⟨3, .ofNumber 2⟩,
        ⟨5, .ofNumber 3⟩, ⟨6, .ofKind .closeParen⟩]
    let err : ParseError := ⟨5, .closeParen, some "3"⟩
    parse 7 ts = .error err ∧
      ∃ k t,
        ts[k]? = some t ∧ t.offset = 5 ∧
          Viable (ts.take k) ∧ ¬ Viable (ts.take (k + 1)) ∧
          ∀ u, u.token.kind = .closeParen →
            Viable (ts.take k ++ [u]) := by
  intro ts err
  have hParse : parse 7 ts = .error err := by
    rfl
  rcases parse_error_at_first_misfit 7 ts err hParse with
    ⟨k, hViable, hPlace, hExpected⟩
  refine ⟨hParse, k, ?_⟩
  rcases hPlace with
    ⟨_, _, hFound, _⟩ | ⟨t, hToken, hMisfit, hOffset, _, _⟩
  · cases hFound
  · rcases hExpected with
      ⟨hText, _⟩ | ⟨_, hClose⟩ | ⟨hText, _⟩
    · exact absurd hText (by decide)
    · exact ⟨t, hToken, hOffset.symm, hViable, hMisfit,
        hClose⟩
    · exact absurd hText (by decide)

end Expr

end ExprCompiler
