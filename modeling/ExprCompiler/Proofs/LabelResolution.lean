import ExprCompiler.Proofs.LimitedOutput
import Mathlib.Data.List.Nodup

/-
  The labels in the text of assembly.

  Key definitions include:
    * `Assembly.definitions`
    * `Assembly.references`
    * `Assembly.Resolves`
    * `Assembly.newLabels`
    * `Assembly.Writer.outputOf`

  Main declarations:
    * `Assembly.definitions_join`
    * `Assembly.filterMap_body`
    * `Assembly.definitions_assembly`
    * `Assembly.Writer.labels_resolve`

  A program defines the labels of its own divisions and no
  others, except for the place to abort at the end of a
  listing that is whole. All programs of a writer share one
  numbering, so no two of them have a division in common.
-/

------------------------------------------------------------
-- Labels in a Text
------------------------------------------------------------

namespace ExprCompiler

namespace Assembly

/- The name behind the mnemonic of a jump. -/
def reference?
    (line : List Char) :
    Option (List Char) :=
  ["  je ", "  jne ", "  jmp "].findSome? fun jump =>
    if jump.toList.isPrefixOf line then
      some (line.drop jump.toList.length)
    else
      none

/- The names that a text defines, in reading order. -/
def definitions
    (text : List Char) :
    List (List Char) :=
  (text.splitOn '\n').filterMap definition?

/- The names that a text jumps to, in reading order. -/
def references
    (text : List Char) :
    List (List Char) :=
  (text.splitOn '\n').filterMap reference?

/-
  No name is defined twice, and every name that is jumped to
  is defined once.
-/
structure Resolves
    (text : List Char) :
    Prop where
  nodup : (definitions text).Nodup
  defined_once :
    ∀ name ∈ references text,
      (definitions text).count name = 1

------------------------------------------------------------
-- Labels of Rendered Lines
------------------------------------------------------------

/- The label that a line jumps to. -/
def Line.target? : Line → Option Label
| .instr (.jump _ target) => some target
| _ => none

/- In the text of a line stands the name it jumps to. -/
theorem Line.reference?_text
    (line : Line) :
    reference? line.text =
      line.target?.map (·.name.toList) := by
  cases line with
  | intelSyntax => simp [text, render, reference?, target?]
  | globalMain => simp [text, render, reference?, target?]
  | mainLabel => simp [text, render, reference?, target?]
  | label l =>
      cases l <;>
        simp [text, render, Label.name, reference?, target?]
  | instr i =>
      rw [text_instr]
      cases i with
      | jump when target =>
          cases when <;>
            simp [Instr.render, Condition.name, reference?,
              target?]
      | arith op dst src =>
          cases op <;>
            simp [Instr.render, ArithOp.name, reference?,
              target?]
      | _ => simp [Instr.render, reference?, target?]

theorem definitions_join
    (lines : List Line) :
    definitions (String.join (lines.map Line.render)).toList =
      (lines.filterMap Line.defines?).map String.toList := by
  rw [definitions, splitOn_join, List.filterMap_append,
    List.filterMap_map, List.map_filterMap]
  have hLine :
      definition? ∘ Line.text =
        fun line => line.defines?.map String.toList :=
    funext Line.definition?_text
  rw [hLine]
  exact List.append_nil _

theorem references_join
    (lines : List Line) :
    references (String.join (lines.map Line.render)).toList =
      (lines.filterMap Line.target?).map (·.name.toList) := by
  rw [references, splitOn_join, List.filterMap_append,
    List.filterMap_map, List.map_filterMap]
  have hLine :
      reference? ∘ Line.text =
        fun line => line.target?.map (·.name.toList) :=
    funext Line.reference?_text
  rw [hLine]
  exact List.append_nil _

------------------------------------------------------------
-- Labels of Programs
------------------------------------------------------------

/-
  What is seen in the lines of a program is what is seen in
  its divisions, one number after the other.
-/
theorem filterMap_body
    {α : Type}
    {view : Line → Option α}
    {each : Nat → List α}
    (hStep :
      ∀ n (i : Instruction) chunk, i.assembly n = .ok chunk →
        chunk.filterMap view =
          (List.range' n i.opcode.divisions).flatMap each)
    (n : Nat)
    (p : Program) :
    (body n p).lines.filterMap view =
      (List.range' n ((body n p).divisions - n)).flatMap
        each := by
  induction p generalizing n with
  | nil => simp [body]
  | cons i p ih =>
      cases hAssembly : i.assembly n with
      | error f => simp [body, hAssembly]
      | ok chunk =>
          have hLess :=
            le_divisions_body (n + i.opcode.divisions) p
          have hCount :
              (body (n + i.opcode.divisions) p).divisions - n =
                i.opcode.divisions +
                  ((body (n + i.opcode.divisions) p).divisions -
                    (n + i.opcode.divisions)) := by
            omega
          rw [body_cons_of_ok hAssembly, hCount,
            ← List.range'_append_1, List.flatMap_append,
            List.filterMap_append, hStep n i chunk hAssembly,
            ih]

/- The labels of the divisions with the given numbers. -/
def newLabels
    (n count : Nat) :
    List Label :=
  (List.range' n count).flatMap fun k =>
    [.divide k, .divided k]

theorem mem_newLabels_iff
    {n count : Nat}
    {l : Label} :
    l ∈ newLabels n count ↔
      ∃ k, n ≤ k ∧ k < n + count ∧
        (l = .divide k ∨ l = .divided k) := by
  simp [newLabels, List.mem_range'_1, and_assoc]

theorem nodup_newLabels
    (n count : Nat) :
    (newLabels n count).Nodup := by
  refine List.nodup_flatMap.mpr ⟨by simp, ?_⟩
  refine List.Pairwise.imp ?_ List.nodup_range'
  intro k m hOther
  simp [Function.onFun, hOther.symm]

theorem defines?_body
    (n : Nat)
    (p : Program) :
    (body n p).lines.filterMap Line.defines? =
      (newLabels n ((body n p).divisions - n)).map
        Label.name := by
  rw [newLabels, List.map_flatMap]
  refine filterMap_body ?_ n p
  intro n i chunk hAssembly
  unfold Instruction.assembly at hAssembly
  cases hOpcode : i.opcode with
  | unknown code h =>
      rw [hOpcode] at hAssembly
      cases hAssembly
  | _ =>
      rw [hOpcode] at hAssembly
      cases hAssembly
      rfl

theorem target?_body
    (n : Nat)
    (p : Program) :
    (body n p).lines.filterMap Line.target? =
      (List.range' n ((body n p).divisions - n)).flatMap
        fun k => [.divisionByZero, .divide k, .divided k] := by
  refine filterMap_body ?_ n p
  intro n i chunk hAssembly
  unfold Instruction.assembly at hAssembly
  cases hOpcode : i.opcode with
  | unknown code h =>
      rw [hOpcode] at hAssembly
      cases hAssembly
  | _ =>
      rw [hOpcode] at hAssembly
      cases hAssembly
      rfl

------------------------------------------------------------
-- Labels of Listings
------------------------------------------------------------

namespace Listing

/- The text of a listing. -/
def text
    (out : Listing) :
    List Char :=
  (String.join (out.lines.map Line.render)).toList

/-
  The labels that are defined by the lines of a program with
  divisions from `n` on, and by the lines behind them.
-/
def labels
    (n : Nat)
    (out : Listing) :
    List Label :=
  newLabels n (out.divisions - n) ++
    if out.failure = none ∧ 0 < out.divisions then
      [.divisionByZero]
    else
      []

theorem mem_labels_iff
    {n : Nat}
    {out : Listing}
    (hLess : n ≤ out.divisions)
    {l : Label} :
    l ∈ out.labels n ↔
      (∃ k, n ≤ k ∧ k < out.divisions ∧
          (l = .divide k ∨ l = .divided k)) ∨
        l = .divisionByZero ∧ out.failure = none ∧
          0 < out.divisions := by
  rw [labels, List.mem_append, mem_newLabels_iff,
    Nat.add_sub_cancel' hLess]
  split
  · rename_i hWhole
    simp [hWhole]
  · rename_i hCut
    simp [hCut]

theorem nodup_labels
    (n : Nat)
    (out : Listing) :
    (out.labels n).Nodup := by
  refine List.Nodup.append (nodup_newLabels n _) ?_ ?_
  · split <;> simp
  · intro l hNew hEnd
    rcases mem_newLabels_iff.mp hNew with
      ⟨k, _, _, rfl | rfl⟩ <;>
      split at hEnd <;> simp at hEnd

end Listing

section Listings

variable (n : Nat) (p : Program)

theorem defines?_assembly :
    (p.assembly n).lines.filterMap Line.defines? =
      "main" :: ((body n p).labels n).map Label.name := by
  have hEnding :
      (body n p).ending.filterMap Line.defines? =
        List.map Label.name
          (if (body n p).failure = none ∧
              0 < (body n p).divisions then
            [.divisionByZero]
          else
            []) := by
    unfold Listing.ending footer
    cases (body n p).failure with
    | some f => simp
    | none =>
        by_cases hSome : 0 < (body n p).divisions
        · rw [if_pos hSome, if_pos ⟨rfl, hSome⟩]
          rfl
        · rw [if_neg hSome, if_neg fun h => hSome h.2]
          rfl
  rw [lines_assembly, List.filterMap_append,
    List.filterMap_append, defines?_body, hEnding,
    ← List.map_append]
  rfl

theorem target?_assembly :
    (p.assembly n).lines.filterMap Line.target? =
      (body n p).lines.filterMap Line.target? := by
  have hEnding :
      (body n p).ending.filterMap Line.target? = [] := by
    unfold Listing.ending footer
    cases (body n p).failure with
    | some f => rfl
    | none =>
        by_cases hSome : 0 < (body n p).divisions
        · rw [if_pos hSome]
          rfl
        · rw [if_neg hSome]
          rfl
  rw [lines_assembly, List.filterMap_append,
    List.filterMap_append, hEnding, List.append_nil]
  rfl

/- What the text of a program defines. -/
theorem definitions_assembly :
    definitions (p.assembly n).text =
      "main".toList ::
        ((body n p).labels n).map (·.name.toList) := by
  rw [Listing.text, definitions_join, defines?_assembly,
    List.map_cons, List.map_map]
  rfl

theorem name_mem_definitions_iff
    {l : Label} :
    l.name.toList ∈ definitions (p.assembly n).text ↔
      l ∈ (body n p).labels n := by
  rw [definitions_assembly, List.mem_cons, String.toList_inj]
  constructor
  · rintro (hMain | hLabel)
    · exact absurd hMain l.name_ne_main
    · rcases List.mem_map.mp hLabel with
        ⟨l', hMem, hName⟩
      rwa [← Label.name_injective
        (String.toList_inj.mp hName)]
  · intro hMem
    exact .inr (List.mem_map_of_mem hMem)

theorem nodup_definitions_assembly :
    (definitions (p.assembly n).text).Nodup := by
  rw [definitions_assembly, List.nodup_cons]
  constructor
  · rintro hMain
    rcases List.mem_map.mp hMain with ⟨l, _, hName⟩
    exact l.name_ne_main (String.toList_inj.mp hName)
  · refine List.Nodup.map ?_ (Listing.nodup_labels n _)
    intro l l' hName
    exact Label.name_injective (String.toList_inj.mp hName)

/- The jumps of a whole program lead to its labels. -/
theorem exists_label_of_reference
    {n : Nat}
    {p : Program}
    (hWhole : (body n p).failure = none)
    {name : List Char}
    (hMem : name ∈ references (p.assembly n).text) :
    ∃ l ∈ (body n p).labels n, name = l.name.toList := by
  rw [Listing.text, references_join, target?_assembly,
    target?_body] at hMem
  rcases List.mem_map.mp hMem with ⟨l, hTarget, rfl⟩
  refine ⟨l, ?_, rfl⟩
  rcases List.mem_flatMap.mp hTarget with
    ⟨k, hRange, hLabel⟩
  have hLess := le_divisions_body n p
  have hBounds := List.mem_range'_1.mp hRange
  rw [Listing.mem_labels_iff hLess]
  simp only [List.mem_cons, List.not_mem_nil,
    or_false] at hLabel
  rcases hLabel with rfl | hLabel
  · exact .inr ⟨rfl, hWhole, by omega⟩
  · exact .inl ⟨k, hBounds.1, by omega, hLabel⟩

theorem resolves_assembly
    {n : Nat}
    {p : Program}
    (hWhole : (body n p).failure = none) :
    Resolves (p.assembly n).text := by
  refine ⟨nodup_definitions_assembly n p, ?_⟩
  intro name hMem
  rcases exists_label_of_reference hWhole hMem with
    ⟨l, hLabel, rfl⟩
  rw [(nodup_definitions_assembly n p).count,
    if_pos ((name_mem_definitions_iff n p).mpr hLabel)]

/- A whole program has a number for each division. -/
theorem lt_divisions_body_iff
    {n : Nat}
    {p : Program}
    (hWhole : (body n p).failure = none) :
    n < (body n p).divisions ↔
      ∃ i ∈ p, i.opcode = .div := by
  induction p generalizing n with
  | nil => simp [body]
  | cons i p ih =>
      cases hAssembly : i.assembly n with
      | error f => simp [body, hAssembly] at hWhole
      | ok chunk =>
          rw [body_cons_of_ok hAssembly] at hWhole ⊢
          have hLess :=
            le_divisions_body (n + i.opcode.divisions) p
          rw [List.exists_mem_cons_iff, ← ih hWhole]
          by_cases hDiv : i.opcode = .div
          · have hOne : i.opcode.divisions = 1 := by
              rw [hDiv]
              rfl
            rw [hOne] at hLess ⊢
            exact ⟨fun _ => .inl hDiv, fun _ => hLess⟩
          · have hZero : i.opcode.divisions = 0 := by
              cases hOpcode : i.opcode with
              | div => exact absurd hOpcode hDiv
              | _ => rfl
            rw [hZero, Nat.add_zero]
            exact ⟨.inr, fun hRest => hRest.resolve_left hDiv⟩

/- Divisions with other numbers have other labels. -/
theorem notMem_labels_of_le
    {m n k : Nat}
    {p q : Program}
    (hLater : (body m p).divisions ≤ n)
    {l : Label}
    (hNumber : l = .divide k ∨ l = .divided k)
    (hMem : l ∈ (body m p).labels m) :
    l ∉ (body n q).labels n := by
  have hKey :
      ∀ {a : Nat} {r : Program}, l ∈ (body a r).labels a →
        a ≤ k ∧ k < (body a r).divisions := by
    intro a r hLabel
    rw [Listing.mem_labels_iff (le_divisions_body a r)]
      at hLabel
    rcases hNumber with rfl | rfl
    · simpa using hLabel
    · simpa using hLabel
  intro hOther
  have hFirst := hKey hMem
  have hSecond := hKey hOther
  omega

/- The place to abort is that of a whole listing. -/
theorem divisionByZero_mem_labels_iff
    (p : Program) :
    .divisionByZero ∈ (body 0 p).labels 0 ↔
      (∃ i ∈ p, i.opcode = .div) ∧
        (body 0 p).failure = none := by
  rw [Listing.mem_labels_iff (Nat.zero_le _)]
  constructor
  · rintro (⟨_, _, _, hLabel | hLabel⟩ |
      ⟨_, hWhole, hSome⟩)
    · cases hLabel
    · cases hLabel
    · exact ⟨(lt_divisions_body_iff hWhole).mp hSome,
        hWhole⟩
  · rintro ⟨hDiv, hWhole⟩
    exact .inr ⟨rfl, hWhole,
      (lt_divisions_body_iff hWhole).mpr hDiv⟩

end Listings

------------------------------------------------------------
-- Labels of Writers
------------------------------------------------------------

namespace Writer

/- What a writer puts out for a program. -/
def outputOf
    (p : Program)
    (w : Writer) :
    List Char :=
  (w.write p).2.sink.output.toList.drop
    w.sink.output.toList.length

section Free

variable {w : Writer}

theorem IsFree.outputOf_eq
    (hFree : w.IsFree)
    (p : Program) :
    w.outputOf p = (p.assembly w.divisions).text := by
  have hOutput :
      (w.write p).2.sink.output.toList =
        w.sink.output.toList ++
          (p.assembly w.divisions).text := by
    rw [write_snd, hFree.put_eq]
    simp [Sink.output, Listing.text]
  rw [outputOf, hOutput, List.drop_left]

theorem IsFree.write_eq_ok_iff
    (hFree : w.IsFree)
    (p : Program) :
    (w.write p).1 = .ok () ↔
      (body w.divisions p).failure = none := by
  rw [write_fst, (hFree.write p).failure_eq, failure_body]
  cases p.unknown? with
  | none => simp
  | some code => simp

end Free

/- The numbers of divisions go on from call to call. -/
theorem divisions_write
    (p : Program)
    (w : Writer) :
    (w.write p).2.divisions =
      (body w.divisions p).divisions := by
  rw [write_snd]
  unfold Program.assembly
  cases hFailure : (body w.divisions p).failure with
  | none => simp only [hFailure]
  | some f => simp only [hFailure]

theorem divisions_le_after
    (programs : List Program)
    (w : Writer) :
    w.divisions ≤ (w.after programs).divisions := by
  induction programs generalizing w with
  | nil => exact Nat.le_refl _
  | cons p programs ih =>
      have hFirst := le_divisions_body w.divisions p
      rw [← divisions_write] at hFirst
      exact Nat.le_trans hFirst (ih (w.write p).2)

/-
  With a sink that takes everything, the labels of a program
  that is put out whole resolve, whatever was written before
  it. No two calls define a label of the same division. The
  first program defines the place to abort if and only if it
  has a division and is put out whole.
-/
theorem labels_resolve :
    let free : Writer := { sink := {} }
    (∀ before p,
        ((free.after before).write p).1 = .ok () →
        Resolves ((free.after before).outputOf p)) ∧
      (∀ before p between q,
        ∀ n : Nat,
          ∀ name ∈ [".L.idiv." ++ toString n,
              ".L.idiv_end." ++ toString n],
            name.toList ∈ definitions
                ((free.after before).outputOf p) →
              name.toList ∉ definitions
                ((free.after
                  (before ++ p :: between)).outputOf q)) ∧
      ∀ p,
        ".L.div_by_zero".toList ∈
            definitions (free.outputOf p) ↔
          (∃ i ∈ p, i.opcode = .div) ∧
            (free.write p).1 = .ok () := by
  intro free
  have hFree : ∀ ps, (free.after ps).IsFree :=
    fun ps => (isFree_fresh.after 0 "" ps).1
  refine ⟨?_, ?_, ?_⟩
  · intro before p hOutcome
    rw [(hFree before).write_eq_ok_iff] at hOutcome
    rw [(hFree before).outputOf_eq]
    exact resolves_assembly hOutcome
  · intro before p between q n name hName hFirst hSecond
    have hLater :
        (body (free.after before).divisions p).divisions ≤
          (free.after (before ++ p :: between)).divisions := by
      rw [← divisions_write, after_append]
      exact divisions_le_after between _
    have hLabel :
        ∃ l : Label, l.name = name ∧
          (l = .divide n ∨ l = .divided n) := by
      simp only [List.mem_cons, List.not_mem_nil,
        or_false] at hName
      rcases hName with rfl | rfl
      · exact ⟨.divide n, rfl, .inl rfl⟩
      · exact ⟨.divided n, rfl, .inr rfl⟩
    rcases hLabel with ⟨l, rfl, hNumber⟩
    rw [(hFree _).outputOf_eq, name_mem_definitions_iff]
      at hFirst hSecond
    exact notMem_labels_of_le hLater hNumber hFirst hSecond
  · intro p
    rw [isFree_fresh.outputOf_eq,
      isFree_fresh.write_eq_ok_iff,
      ← divisionByZero_mem_labels_iff,
      ← name_mem_definitions_iff]
    rfl

/-
  A program that is cut short behind a division uses up the
  number of the division. The next program begins with
  another, and the place to abort is its own.
-/
theorem labels_resolve_behind_unknown_opcode :
    let cut : Program :=
      [.ofNumber 4, .ofNumber 2, .ofOpcode .div,
        .ofOpcode (.unknown 7 (by decide))]
    let p : Program :=
      [.ofNumber 6, .ofNumber 3, .ofOpcode .div]
    let free : Writer := { sink := {} }
    ((free.after [cut]).write p).1 = .ok () ∧
      Resolves ((free.after [cut]).outputOf p) ∧
      ".L.idiv.0".toList ∈ definitions (free.outputOf cut) ∧
      ".L.idiv.0".toList ∉
        definitions ((free.after [cut]).outputOf p) := by
  intro cut p free
  rcases labels_resolve with ⟨hResolves, hApart, _⟩
  have hOutcome :
      ((free.after [cut]).write p).1 = .ok () := rfl
  have hFirst :
      ".L.idiv.0".toList ∈ definitions (free.outputOf cut) := by
    rw [isFree_fresh.outputOf_eq]
    exact (name_mem_definitions_iff 0 cut (l := .divide 0)).mpr
      (by decide)
  exact ⟨hOutcome, hResolves [cut] p hOutcome, hFirst,
    hApart [] cut [] p 0 ".L.idiv.0" (by decide) hFirst⟩

/-
  An unknown opcode behind a division leaves the output
  without a place to abort.
-/
theorem divisionByZero_undefined_of_unknown_opcode :
    let p : Program :=
      [.ofNumber 1, .ofNumber 0, .ofOpcode .div,
        .ofOpcode (.ofCode 7)]
    let free : Writer := { sink := {} }
    (∃ i ∈ p, i.opcode = .div) ∧
      ".L.div_by_zero".toList ∉
        definitions (free.outputOf p) := by
  intro p free
  refine ⟨by decide, ?_⟩
  rw [isFree_fresh.outputOf_eq]
  intro hDefined
  have hLabel :
      Label.divisionByZero ∈ (body 0 p).labels 0 :=
    (name_mem_definitions_iff 0 p).mp hDefined
  exact absurd hLabel (by decide)

end Writer

end Assembly

end ExprCompiler
