import ExprCompiler.Llvm.Builder
import ExprCompiler.Proofs.Evaluation
import ExprCompiler.Proofs.LlvmSemantics
import ExprCompiler.Proofs.Numbers
import Mathlib.Data.List.Nodup

/-
  How the draft of a function grows.

  Key definitions include:
    * `Llvm.Draft.Grows`
    * `Llvm.Draft.WellFormed`
    * `Llvm.Function.Contains`

  Main declarations:
    * `Llvm.Label.name_injective`
    * `Expr.grows_of_load`
    * `Llvm.Draft.Grows.wellFormed`
    * `Llvm.Function.Contains.of_grows`
    * `Llvm.Function.block?_of_nodup`
    * `Llvm.Draft.WellFormed.contains_finish`

  A draft grows by single instructions and by divisions. A
  function that contains a draft contains every draft that
  it has grown from, and a finished draft is contained in
  the function made of it.
-/

------------------------------------------------------------
-- Names of Blocks
------------------------------------------------------------

namespace ExprCompiler

namespace Llvm

/- Different blocks have different names. -/
theorem Label.name_injective
    {l l' : Label}
    (hName : l.name = l'.name) :
    l = l' := by
  have hChars := congrArg String.toList hName
  -- Only the six pairs of labels of one kind are left.
  cases l <;> cases l' <;> simp [name] at hChars
  case entry.entry => rfl
  all_goals rw [eq_of_toDigits_eq hChars]

------------------------------------------------------------
-- Growth
------------------------------------------------------------

namespace Draft

/- One instruction or one division is appended. -/
inductive Extends : Draft → Draft → Prop
  | arith
      (d : Draft)
      (op : ArithOp)
      (left right : Value) :
      Extends d (d.arith op left right).2
  | division
      (d : Draft)
      (left right : Value) :
      Extends d (d.division left right).2

/- A draft is appended to any number of times. -/
def Grows : Draft → Draft → Prop :=
  Relation.ReflTransGen Extends

variable {d d' : Draft}

/- Results are numbered in order. -/
theorem Grows.results_le
    (hGrows : d.Grows d') :
    d.results ≤ d'.results := by
  induction hGrows with
  | refl => exact Nat.le_refl d.results
  | tail _ hLast ih =>
      cases hLast with
      | arith op left right =>
          exact Nat.le_trans ih (Nat.le_add_right _ 1)
      | division left right =>
          exact Nat.le_trans ih (Nat.le_add_right _ 5)

end Draft

end Llvm

/- An operation appends its instructions. -/
theorem UnaryOp.grows_of_load
    {op : UnaryOp}
    {v v' : Llvm.Value}
    {d d' : Llvm.Draft}
    (hLoad : op.load v d = .ok (v', d'))
    (hBelow : v.IsBelow d.results) :
    d.Grows d' ∧ v'.IsBelow d'.results := by
  cases op with
  | plus =>
      cases hLoad
      exact ⟨.refl, hBelow⟩
  | minus =>
      cases hLoad
      exact ⟨.single (.arith d .mul v (.number (-1))),
        Nat.lt_succ_self d.results⟩
  | unknown s h => cases hLoad

theorem BinaryOp.grows_of_load
    {op : BinaryOp}
    {left right v : Llvm.Value}
    {d d' : Llvm.Draft}
    (hLoad : op.load left right d = .ok (v, d')) :
    d.Grows d' ∧ v.IsBelow d'.results := by
  cases op with
  | add | sub | mul =>
      cases hLoad
      exact ⟨.single (.arith d _ left right),
        Nat.lt_succ_self d.results⟩
  | div =>
      cases hLoad
      exact ⟨.single (.division d left right),
        Nat.lt_succ_self (d.results + 4)⟩
  | unknown s h => cases hLoad

namespace Expr

theorem load_unary_eq_ok_iff
    {op : UnaryOp}
    {x : Expr}
    {d : Llvm.Draft}
    {out : Llvm.Value × Llvm.Draft} :
    (unary op x).load d = .ok out ↔
      ∃ v d₁, x.load d = .ok (v, d₁) ∧
        op.load v d₁ = .ok out := by
  simp only [load, bind_eq_ok_iff, Prod.exists]

theorem load_binary_eq_ok_iff
    {op : BinaryOp}
    {l r : Expr}
    {d : Llvm.Draft}
    {out : Llvm.Value × Llvm.Draft} :
    (binary op l r).load d = .ok out ↔
      ∃ left d₁ right d₂,
        l.load d = .ok (left, d₁) ∧
          r.load d₁ = .ok (right, d₂) ∧
          op.load left right d₂ = .ok out := by
  simp only [load, bind_eq_ok_iff, Prod.exists]
  constructor
  · rintro ⟨left, d₁, hLeft, right, d₂, hRight, hOp⟩
    exact ⟨left, d₁, right, d₂, hLeft, hRight, hOp⟩
  · rintro ⟨left, d₁, right, d₂, hLeft, hRight, hOp⟩
    exact ⟨left, d₁, hLeft, right, d₂, hRight, hOp⟩

/- A tree appends its instructions, and its value is there. -/
theorem grows_of_load
    {e : Expr}
    {v : Llvm.Value}
    {d d' : Llvm.Draft}
    (hLoad : e.load d = .ok (v, d')) :
    d.Grows d' ∧ v.IsBelow d'.results := by
  induction e generalizing v d d' with
  | missing => cases hLoad
  | number value =>
      cases hLoad
      exact ⟨.refl, trivial⟩
  | unary op x ih =>
      rcases load_unary_eq_ok_iff.mp hLoad with
        ⟨w, d₁, hOperand, hOp⟩
      have hFirst := ih hOperand
      have hSecond := op.grows_of_load hOp hFirst.2
      exact ⟨hFirst.1.trans hSecond.1, hSecond.2⟩
  | binary op l r ihl ihr =>
      rcases load_binary_eq_ok_iff.mp hLoad with
        ⟨left, d₁, right, d₂, hLeft, hRight, hOp⟩
      have hFirst := ihl hLeft
      have hSecond := ihr hRight
      have hThird := op.grows_of_load hOp
      exact ⟨(hFirst.1.trans hSecond.1).trans hThird.1,
        hThird.2⟩

/- A legal tree can be appended to every draft. -/
theorem exists_load_of_isLegal
    {e : Expr}
    (hLegal : e.IsLegal)
    (d : Llvm.Draft) :
    ∃ v d', e.load d = .ok (v, d') := by
  induction e generalizing d with
  | missing => cases hLegal
  | number value => exact ⟨_, d, rfl⟩
  | unary op x ih =>
      rcases hLegal with ⟨hKnown, hOperand⟩
      rcases ih hOperand d with ⟨w, d₁, hLoad⟩
      have hOp : ∃ v d', op.load w d₁ = .ok (v, d') := by
        cases op with
        | unknown s h => cases hKnown
        | _ => exact ⟨_, _, rfl⟩
      rcases hOp with ⟨v, d', hOp⟩
      exact ⟨v, d',
        load_unary_eq_ok_iff.mpr ⟨w, d₁, hLoad, hOp⟩⟩
  | binary op l r ihl ihr =>
      rcases hLegal with ⟨hKnown, hLeft, hRight⟩
      rcases ihl hLeft d with ⟨left, d₁, hLeft⟩
      rcases ihr hRight d₁ with ⟨right, d₂, hRight⟩
      have hOp :
          ∃ v d', op.load left right d₂ = .ok (v, d') := by
        cases op with
        | unknown s h => cases hKnown
        | _ => exact ⟨_, _, rfl⟩
      rcases hOp with ⟨v, d', hOp⟩
      exact ⟨v, d', load_binary_eq_ok_iff.mpr
        ⟨left, d₁, right, d₂, hLeft, hRight, hOp⟩⟩

end Expr

------------------------------------------------------------
-- Labels of a Draft
------------------------------------------------------------

namespace Llvm

/- A label that belongs to no division from a number on. -/
def Label.IsBelow
    (n : Nat) :
    Label → Prop
| .entry => True
| .zero k
| .check k
| .negate k
| .divide k
| .join k => k < n

theorem Label.IsBelow.succ
    {l : Label}
    {n : Nat}
    (hBelow : l.IsBelow n) :
    l.IsBelow (n + 1) := by
  cases l with
  | entry => trivial
  | _ k => exact Nat.lt_succ_of_lt hBelow

namespace Draft

/- The labels of the blocks of a draft, newest first. -/
def labels
    (d : Draft) :
    List Label :=
  d.label :: d.blocks.map Block.label

/-
  The blocks of a draft have different labels, all of which
  were given out, and the first of them is the entry.
-/
structure WellFormed
    (d : Draft) :
    Prop where
  nodup : d.labels.Nodup
  below : ∀ l ∈ d.labels, l.IsBelow d.divisions
  entry : d.labels.getLast? = some .entry

theorem wellFormed_empty :
    WellFormed {} where
  nodup := by simp [labels]
  below := by simp [labels, Label.IsBelow]
  entry := rfl

/- The labels of a division are new. -/
theorem WellFormed.division
    {d : Draft}
    (hDraft : d.WellFormed)
    (left right : Value) :
    (d.division left right).2.WellFormed := by
  let n := d.divisions
  let new : List Label :=
    [.join n, .divide n, .negate n, .check n, .zero n]
  have hLabels :
      (d.division left right).2.labels = new ++ d.labels :=
    rfl
  have hFresh : ∀ l ∈ new, ¬ l.IsBelow n := by
    simp [new, Label.IsBelow]
  constructor
  · rw [hLabels, List.nodup_append]
    refine ⟨by simp [new], hDraft.nodup, ?_⟩
    rintro l hNew l' hOld rfl
    exact hFresh l hNew (hDraft.below l hOld)
  · intro l hMem
    rw [hLabels, List.mem_append] at hMem
    rcases hMem with hNew | hOld
    · have hNext : ∀ l ∈ new, l.IsBelow (n + 1) := by
        simp [new, Label.IsBelow]
      exact hNext l hNew
    · exact (hDraft.below l hOld).succ
  · rw [hLabels, List.getLast?_append, hDraft.entry]
    rfl

theorem Grows.wellFormed
    {d d' : Draft}
    (hGrows : d.Grows d')
    (hDraft : d.WellFormed) :
    d'.WellFormed := by
  induction hGrows with
  | refl => exact hDraft
  | tail _ hLast ih =>
      cases hLast with
      | arith op left right =>
          exact ⟨ih.nodup, ih.below, ih.entry⟩
      | division left right => exact ih.division left right

end Draft

------------------------------------------------------------
-- Drafts in a Function
------------------------------------------------------------

/-
  A function contains the finished blocks of a draft, and a
  block that begins with what the draft is being filled with.
-/
structure Function.Contains
    (f : Function)
    (d : Draft) :
    Prop where
  blocks : ∀ b ∈ d.blocks, f.block? b.label.name = some b
  current :
    ∃ rest terminator,
      f.block? d.label.name =
        some ⟨d.label, d.body.reverse ++ rest, terminator⟩

namespace Function.Contains

variable {f : Function}
variable {d d' : Draft}

/- A block that a division ends, with how it ends. -/
theorem block?_of_division
    {left right : Value}
    (hContains : f.Contains (d.division left right).2) :
    f.block? d.label.name =
      some ⟨d.label,
        d.body.reverse ++
          [.isEqual d.results right (.number 0)],
        .branch (.result d.results) (.zero d.divisions)
          (.check d.divisions)⟩ := by
  have hStart :=
    hContains.blocks
      ⟨d.label,
        (.isEqual d.results right (.number 0) ::
          d.body).reverse,
        .branch (.result d.results) (.zero d.divisions)
          (.check d.divisions)⟩
      (by simp [Draft.division])
  rw [List.reverse_cons] at hStart
  exact hStart

theorem of_extends
    (hContains : f.Contains d')
    (hExtends : d.Extends d') :
    f.Contains d := by
  cases hExtends with
  | arith op left right =>
      rcases hContains.current with
        ⟨rest, terminator, hBlock⟩
      refine ⟨hContains.blocks,
        .arith d.results op left right :: rest, terminator,
        ?_⟩
      simpa [Draft.arith] using hBlock
  | division left right =>
      refine ⟨?_, _, _, hContains.block?_of_division⟩
      intro b hMem
      apply hContains.blocks
      simp [Draft.division, hMem]

/- What a draft has grown from is still there. -/
theorem of_grows
    (hContains : f.Contains d')
    (hGrows : d.Grows d') :
    f.Contains d := by
  induction hGrows with
  | refl => exact hContains
  | tail _ hLast ih => exact ih (hContains.of_extends hLast)

end Function.Contains

------------------------------------------------------------
-- Finished Drafts
------------------------------------------------------------

/- Blocks with different labels are found by their names. -/
theorem Function.block?_of_nodup
    {f : Function}
    (hNodup : (f.blocks.map Block.label).Nodup)
    {b : Block}
    (hMem : b ∈ f.blocks) :
    f.block? b.label.name = some b := by
  cases hFound : f.block? b.label.name with
  | none =>
      have hNone := List.find?_eq_none.mp hFound b hMem
      simp at hNone
  | some b' =>
      have hMem' := List.mem_of_find?_eq_some hFound
      have hName : b'.label.name = b.label.name := by
        simpa using List.find?_some hFound
      have hSame :=
        List.inj_on_of_nodup_map hNodup hMem' hMem
          (Label.name_injective hName)
      rw [hSame]

namespace Draft

variable {d : Draft}

/- A finished draft is part of the function made of it. -/
theorem WellFormed.block?_finish
    (hDraft : d.WellFormed)
    (v : Value)
    {b : Block}
    (hMem :
      b ∈ ⟨d.label, d.body.reverse, .ret v⟩ :: d.blocks) :
    (d.finish v).block? b.label.name = some b := by
  apply Function.block?_of_nodup
  · rw [finish, List.map_reverse, List.nodup_reverse]
    exact hDraft.nodup
  · exact List.mem_reverse.mpr hMem

theorem WellFormed.contains_finish
    (hDraft : d.WellFormed)
    (v : Value) :
    (d.finish v).Contains d where
  blocks := by
    intro b hMem
    exact hDraft.block?_finish v (List.mem_cons_of_mem _ hMem)
  current := by
    refine ⟨[], .ret v, ?_⟩
    rw [List.append_nil]
    exact hDraft.block?_finish v List.mem_cons_self

/- Control enters a finished draft at the entry block. -/
theorem WellFormed.start?_finish
    (hDraft : d.WellFormed)
    (v : Value) :
    ∃ b,
      (d.finish v).start? =
          some (b.start none fun _ => none) ∧
        b.label = .entry ∧
        (d.finish v).block? b.label.name = some b := by
  have hLast :
      ((⟨d.label, d.body.reverse, .ret v⟩ ::
        d.blocks).map Block.label).getLast? = some .entry :=
    hDraft.entry
  rw [List.getLast?_map, Option.map_eq_some_iff] at hLast
  rcases hLast with ⟨b, hLast, hLabel⟩
  refine ⟨b, ?_, hLabel, ?_⟩
  · rw [Function.start?, finish, List.head?_reverse, hLast]
    rfl
  · exact hDraft.block?_finish v
      (List.mem_of_getLast? hLast)

end Draft

end Llvm

end ExprCompiler
