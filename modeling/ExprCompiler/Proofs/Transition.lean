import Mathlib.Logic.Relation

/-
  Systems that run step by step until they halt.

  Key definitions include:
    * `Transition`
    * `Transition.Reaches`
    * `Transition.Ends`

  A step depends on the state alone, so a run has at most
  one end.
-/

------------------------------------------------------------
-- Steps and Runs
------------------------------------------------------------

namespace ExprCompiler

/- What a step leads to: the next state, or an ending. -/
inductive Transition (State Ending : Type) where
  | next (s : State)
  | halt (e : Ending)
deriving DecidableEq, Repr

namespace Transition

variable {State Ending : Type}
variable {step : State → Transition State Ending}
variable {s s' t t' : State}

/- A state is reached after any number of steps. -/
def Reaches
    (step : State → Transition State Ending) :
    State → State → Prop :=
  Relation.ReflTransGen fun s s' => step s = .next s'

/- A run comes to a state in which it halts. -/
def Ends
    (step : State → Transition State Ending)
    (s t : State)
    (e : Ending) :
    Prop :=
  Reaches step s t ∧ step t = .halt e

theorem Reaches.refl
    (s : State) :
    Reaches step s s :=
  Relation.ReflTransGen.refl

theorem Reaches.trans
    (hFirst : Reaches step s s')
    (hSecond : Reaches step s' t) :
    Reaches step s t :=
  Relation.ReflTransGen.trans hFirst hSecond

theorem Reaches.head
    (hStep : step s = .next s')
    (hRest : Reaches step s' t) :
    Reaches step s t :=
  Relation.ReflTransGen.head hStep hRest

theorem Reaches.single
    (hStep : step s = .next s') :
    Reaches step s s' :=
  Relation.ReflTransGen.single hStep

------------------------------------------------------------
-- Determinism
------------------------------------------------------------

/- A run does not go on from a state in which it halts. -/
theorem Reaches.eq_of_halt
    {e : Ending}
    (hReaches : Reaches step s t)
    (hHalt : step s = .halt e) :
    t = s := by
  rcases Relation.ReflTransGen.cases_head hReaches with
    hSame | ⟨s', hStep, _⟩
  · exact hSame.symm
  · rw [hHalt] at hStep
    cases hStep

/- A run goes through every state that it reaches. -/
theorem Ends.of_reaches
    {e : Ending}
    (hEnds : Ends step s t e)
    (hReaches : Reaches step s s') :
    Ends step s' t e := by
  have hUnique :
      Relator.RightUnique fun s s' : State =>
        step s = .next s' := by
    intro a b c hFirst hSecond
    exact Transition.next.inj (hFirst.symm.trans hSecond)
  rcases Relation.ReflTransGen.total_of_right_unique
      hUnique hEnds.1 hReaches with
    hAhead | hBehind
  · rw [Reaches.eq_of_halt hAhead hEnds.2]
    exact ⟨.refl t, hEnds.2⟩
  · exact ⟨hBehind, hEnds.2⟩

/- A run ends in one way. -/
theorem Ends.unique
    {e e' : Ending}
    (hEnds : Ends step s t e)
    (hEnds' : Ends step s t' e') :
    t = t' ∧ e = e' := by
  have hLast := hEnds.of_reaches hEnds'.1
  have hState := hLast.1.eq_of_halt hEnds'.2
  refine ⟨hState, ?_⟩
  rw [hState] at hEnds
  exact Transition.halt.inj
    (hEnds.2.symm.trans hEnds'.2)

end Transition

end ExprCompiler
