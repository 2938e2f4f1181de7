import ExprCompiler.Proofs.Numbers
import ExprCompiler.Proofs.Processor
import Mathlib.Data.List.Basic

/-
  Reading assembly from its text.

  Key definitions include:
    * `Assembly.Operand.read?`
    * `Assembly.Instr.read?`
    * `Assembly.Line.read?`
    * `Assembly.program?`

  Main declarations:
    * `Assembly.Operand.read?_text`
    * `Assembly.Instr.read?_render`
    * `Assembly.Line.read?_text`
    * `Assembly.program?_join`

  The text is read in the notation of Intel: a destination
  stands before its source, and the name of a register says
  how much of it is meant. Reading does not refer to how
  lines are rendered, and undoes it.
-/

------------------------------------------------------------
-- Pieces of a Text
------------------------------------------------------------

namespace ExprCompiler

/- A piece of output is one line with its end. -/
def IsLine
    (piece : String) :
    Prop :=
  ∃ cs, '\n' ∉ cs ∧ piece.toList = cs ++ ['\n']

/- Blanks are skipped up to the first word. -/
theorem dropWhile_blanks
    (n : Nat)
    {text : List Char}
    (hHead : text.head? ≠ some ' ') :
    (List.replicate n ' ' ++ text).dropWhile (· = ' ') =
      text := by
  rw [List.dropWhile_append_of_pos (by simp)]
  cases text with
  | nil => rfl
  | cons c cs =>
      have hOther : c ≠ ' ' := fun h => hHead (congrArg some h)
      simp [hOther]

/- What is read from each text is read from a list. -/
theorem mapM_map_eq_some
    {α β : Type}
    {read : β → Option α}
    {write : α → β}
    (hRead : ∀ x, read (write x) = some x)
    (xs : List α) :
    (xs.map write).mapM read = some xs := by
  induction xs with
  | nil => rfl
  | cons x xs ih =>
      rw [List.map_cons, List.mapM_cons, hRead, ih]
      rfl

------------------------------------------------------------
-- Operands in a Text
------------------------------------------------------------

namespace Assembly

namespace Label

/- The number behind the start of a name. -/
def numbered?
    (start : String)
    (text : List Char) :
    Option Nat :=
  (text.dropPrefix? start.toList).bind natural?

/- The label with a given name. -/
def read?
    (text : List Char) :
    Option Label :=
  if text = ".L.div_by_zero".toList then
    some .divisionByZero
  else
    (numbered? ".L.idiv." text).map .divide <|>
      (numbered? ".L.idiv_end." text).map .divided

end Label

/- What an instruction is applied to. -/
inductive Operand where
  | number (v : Int32)
  | label (l : Label)
  | whole (r : Register)
  | low (r : Register)
  | abort
deriving DecidableEq, Repr

namespace Operand

/- The number that a text stands for, if it has 32 bits. -/
def number?
    (text : List Char) :
    Option Int32 :=
  (integer? text).bind fun v =>
    if (Int32.ofInt v).toInt = v then
      some (.ofInt v)
    else
      none

/- The operands that have names of their own. -/
def named? : String → Option Operand
| "rax" => some (.whole .a)
| "rdi" => some (.whole .di)
| "eax" => some (.low .a)
| "edi" => some (.low .di)
| "abort" => some .abort
| _ => none

/- The operand that a text stands for. -/
def read?
    (text : List Char) :
    Option Operand :=
  (number? text).map .number <|>
    (Label.read? text).map .label <|>
      named? (.ofList text)

end Operand

------------------------------------------------------------
-- Instructions in a Text
------------------------------------------------------------

/- Operands with commas between them. -/
def operands?
    (text : List Char) :
    Option (List Operand) :=
  if text = [] then
    some []
  else
    (text.splitOn ',').mapM fun piece =>
      Operand.read? (piece.dropWhile (· = ' '))

namespace Instr

/- The instruction with a mnemonic and operands. -/
def ofParts? : String → List Operand → Option Instr
| "push", [.number v] => some (.pushNumber v)
| "push", [.whole r] => some (.push r)
| "pop", [.whole r] => some (.pop r)
| "neg", [.low r] => some (.neg r)
| "add", [.low dst, .low src] => some (.arith .add dst src)
| "sub", [.low dst, .low src] => some (.arith .sub dst src)
| "imul", [.low dst, .low src] => some (.arith .imul dst src)
| "test", [.low left, .low right] => some (.test left right)
| "cmp", [.low r, .number v] => some (.compare r v)
| "jmp", [.label target] => some (.jump .always target)
| "je", [.label target] => some (.jump .equal target)
| "jne", [.label target] => some (.jump .notEqual target)
| "cdq", [] => some .cdq
| "idiv", [.low r] => some (.idiv r)
| "ret", [] => some .ret
| "call", [.abort] => some .callAbort
| _, _ => none

/- The instruction in a line of text. -/
def read?
    (text : List Char) :
    Option Instr :=
  let words := text.dropWhile (· = ' ')
  let mnemonic := words.takeWhile (· ≠ ' ')
  (operands? (words.dropWhile (· ≠ ' '))).bind
    (ofParts? (.ofList mnemonic))

end Instr

------------------------------------------------------------
-- Lines of a Text
------------------------------------------------------------

/- The name that a line of text defines, before a colon. -/
def definition?
    (line : List Char) :
    Option (List Char) :=
  if line.getLast? = some ':' then
    some line.dropLast
  else
    none

/- The line that a text stands for. -/
def Line.read?
    (text : List Char) :
    Option Line :=
  if text = ".intel_syntax noprefix".toList then
    some .intelSyntax
  else if text = ".globl main".toList then
    some .globalMain
  else
    match definition? text with
    | none => (Instr.read? text).map .instr
    | some name =>
        if name = "main".toList then
          some .mainLabel
        else
          (Label.read? name).map .label

/-
  The lines of a whole text. Operands are in the order of
  Intel only behind the directive that says so.
-/
def program?
    (text : List Char) :
    Option (List Line) :=
  (((text.splitOn '\n').filter (· ≠ [])).mapM
    Line.read?).filter fun lines =>
      lines.head? = some .intelSyntax

------------------------------------------------------------
-- Operands of Rendered Instructions
------------------------------------------------------------

namespace Label

theorem numbered?_append
    (start : String)
    (n : Nat) :
    numbered? start (start.toList ++ Nat.toDigits 10 n) =
      some n := by
  rw [numbered?,
    List.dropPrefix?_append_of_beq _ (beq_self_eq_true _),
    Option.bind_some, natural?_toDigits]

/- A label is read back from its name. -/
theorem read?_name
    (l : Label) :
    read? l.name.toList = some l := by
  cases l with
  | divisionByZero => rfl
  | divide n =>
      have hName :
          (divide n).name.toList =
            ".L.idiv.".toList ++ Nat.toDigits 10 n := by
        simp [name]
      rw [hName, read?, if_neg (by simp), numbered?_append]
      rfl
  | divided n =>
      have hName :
          (divided n).name.toList =
            ".L.idiv_end.".toList ++ Nat.toDigits 10 n := by
        simp [name]
      -- The underscore tells the two starts apart.
      have hNone :
          numbered? ".L.idiv."
              (".L.idiv_end.".toList ++ Nat.toDigits 10 n) =
            none := by
        rfl
      rw [hName, read?, if_neg (by simp), hNone,
        numbered?_append]
      rfl

/- Different labels have different names. -/
theorem name_injective
    {l l' : Label}
    (hName : l.name = l'.name) :
    l = l' := by
  have hRead := l.read?_name
  rw [hName, read?_name] at hRead
  exact (Option.some.inj hRead).symm

/- A label has not the name of the main function. -/
theorem name_ne_main
    (l : Label) :
    l.name ≠ "main" := by
  intro hName
  have hRead := l.read?_name
  rw [hName] at hRead
  cases hRead

end Label

namespace Operand

/- The text of an operand. -/
def text : Operand → List Char
| .number v => (toString v.toInt).toList
| .label l => l.name.toList
| .whole r => r.name.toList
| .low r => r.lowName.toList
| .abort => "abort".toList

theorem number?_text
    (v : Int32) :
    number? (text (.number v)) = some v := by
  have hText : text (.number v) = v.toInt.repr.toList := rfl
  simp [number?, hText, integer?_repr]

/- An operand is read back from its text. -/
theorem read?_text
    (o : Operand) :
    read? o.text = some o := by
  cases o with
  | number v => simp [read?, number?_text]
  | label l =>
      have hDot : '.' ∈ l.name.toList := by
        cases l <;> simp [Label.name]
      have hNumber : number? l.name.toList = none := by
        rw [number?,
          integer?_eq_none_of_mem rfl (by decide) hDot]
        rfl
      simp [read?, text, hNumber, Label.read?_name]
  | whole r => cases r <;> rfl
  | low r => cases r <;> rfl
  | abort => rfl

end Operand

/- The characters that end words, names and lines. -/
def IsMark
    (c : Char) :
    Prop :=
  c = ' ' ∨ c = ',' ∨ c = ':' ∨ c = '\n'

section Marks

variable {c : Char}
variable (hMark : IsMark c)

include hMark

theorem IsMark.isDigit_eq_false :
    c.isDigit = false := by
  rcases hMark with rfl | rfl | rfl | rfl <;> rfl

theorem Label.notMem_name
    (l : Label) :
    c ∉ l.name.toList := by
  have hDigits := notMem_toDigits hMark.isDigit_eq_false
  rcases hMark with rfl | rfl | rfl | rfl <;>
    cases l <;> simp [name, hDigits]

/- No operand holds a mark. -/
theorem Operand.notMem_text
    (o : Operand) :
    c ∉ o.text := by
  cases o with
  | number v =>
      have hSign : c ≠ '-' := by
        rcases hMark with rfl | rfl | rfl | rfl <;> decide
      exact notMem_repr hMark.isDigit_eq_false hSign v.toInt
  | label l => exact l.notMem_name hMark
  | whole r =>
      rcases hMark with rfl | rfl | rfl | rfl <;>
        cases r <;> simp [text, Register.name]
  | low r =>
      rcases hMark with rfl | rfl | rfl | rfl <;>
        cases r <;> simp [text, Register.lowName]
  | abort =>
      rcases hMark with rfl | rfl | rfl | rfl <;>
        simp [text]

end Marks

namespace Operand

/- The text of operands, with what stands before them. -/
def texts
    (os : List Operand) :
    List Char :=
  [','].intercalate (os.map fun o => ' ' :: o.text)

/- If there is an operand, a blank is in front. -/
theorem exists_texts_cons
    (o : Operand)
    (os : List Operand) :
    ∃ rest, texts (o :: os) = ' ' :: rest := by
  cases os with
  | nil => exact ⟨o.text, by simp [texts]⟩
  | cons o' os =>
      refine ⟨o.text ++ ',' :: texts (o' :: os), ?_⟩
      simp [texts, List.intercalate_cons_cons]

theorem takeWhile_texts
    (os : List Operand) :
    (texts os).takeWhile (· ≠ ' ') = [] := by
  cases os with
  | nil => rfl
  | cons o os =>
      rcases exists_texts_cons o os with ⟨rest, hTexts⟩
      simp [hTexts]

theorem dropWhile_texts
    (os : List Operand) :
    (texts os).dropWhile (· ≠ ' ') = texts os := by
  cases os with
  | nil => rfl
  | cons o os =>
      rcases exists_texts_cons o os with ⟨rest, hTexts⟩
      simp [hTexts]

end Operand

/- Operands are read back from their text. -/
theorem operands?_texts
    (os : List Operand) :
    operands? (Operand.texts os) = some os := by
  cases os with
  | nil => rfl
  | cons first more =>
      have hComma :
          ∀ piece ∈ (first :: more).map fun o => ' ' :: o.text,
            ',' ∉ piece := by
        intro piece hPiece
        rcases List.mem_map.mp hPiece with ⟨o, _, rfl⟩
        simp [o.notMem_text (.inr (.inl rfl))]
      have hPieces :
          (Operand.texts (first :: more)).splitOn ',' =
            (first :: more).map fun o => ' ' :: o.text :=
        List.splitOn_intercalate ',' hComma
          (List.cons_ne_nil _ _)
      rcases Operand.exists_texts_cons first more with
        ⟨rest, hTexts⟩
      rw [operands?, if_neg (by simp [hTexts]), hPieces]
      refine mapM_map_eq_some ?_ (first :: more)
      intro o
      have hHead : o.text.head? ≠ some ' ' := fun h =>
        o.notMem_text (.inl rfl) (List.mem_of_head? h)
      have hText :
          (' ' :: o.text).dropWhile (· = ' ') = o.text :=
        dropWhile_blanks 1 hHead
      rw [hText, Operand.read?_text]

------------------------------------------------------------
-- Rendered Instructions
------------------------------------------------------------

namespace Instr

/- The mnemonic of an instruction. -/
def mnemonic : Instr → String
| .pushNumber _ => "push"
| .push _ => "push"
| .pop _ => "pop"
| .neg _ => "neg"
| .arith op _ _ => op.name
| .test _ _ => "test"
| .compare _ _ => "cmp"
| .jump when _ => when.name
| .cdq => "cdq"
| .idiv _ => "idiv"
| .ret => "ret"
| .callAbort => "call"

/- Its operands, a destination before its source. -/
def operands : Instr → List Operand
| .pushNumber v => [.number v]
| .push r => [.whole r]
| .pop r => [.whole r]
| .neg r => [.low r]
| .arith _ dst src => [.low dst, .low src]
| .test left right => [.low left, .low right]
| .compare r v => [.low r, .number v]
| .jump _ target => [.label target]
| .cdq => []
| .idiv r => [.low r]
| .ret => []
| .callAbort => [.abort]

theorem ofParts?_mnemonic_operands
    (i : Instr) :
    ofParts? i.mnemonic i.operands = some i := by
  cases i with
  | arith op dst src => cases op <;> rfl
  | jump when target => cases when <;> rfl
  | _ => rfl

theorem notMem_mnemonic
    {c : Char}
    (hMark : IsMark c)
    (i : Instr) :
    c ∉ i.mnemonic.toList := by
  rcases hMark with rfl | rfl | rfl | rfl <;>
    cases i with
    | arith op dst src =>
        cases op <;> simp [mnemonic, ArithOp.name]
    | jump when target =>
        cases when <;> simp [mnemonic, Condition.name]
    | _ => simp [mnemonic]

/- A blank stands before each operand. -/
theorem toList_render
    (i : Instr) :
    i.render.toList =
      i.mnemonic.toList ++ Operand.texts i.operands := by
  cases i <;>
    simp [render, mnemonic, operands, Operand.texts,
      Operand.text, List.intercalate_cons_cons]

theorem head?_render
    (i : Instr) :
    i.render.toList.head? ≠ some ' ' := by
  cases i with
  | arith op dst src =>
      cases op <;> simp [render, ArithOp.name]
  | jump when target =>
      cases when <;> simp [render, Condition.name]
  | _ => simp [render]

/- An instruction is read back from its text. -/
theorem read?_render
    (i : Instr) :
    read? (' ' :: ' ' :: i.render.toList) = some i := by
  have hBlank := i.notMem_mnemonic (.inl rfl)
  have hWord :
      ∀ c ∈ i.mnemonic.toList, decide (c ≠ ' ') = true := by
    intro c hMem
    exact decide_eq_true fun h => hBlank (h ▸ hMem)
  have hWords :
      (' ' :: ' ' :: i.render.toList).dropWhile (· = ' ') =
        i.mnemonic.toList ++ Operand.texts i.operands := by
    rw [← toList_render]
    exact dropWhile_blanks 2 i.head?_render
  have hMnemonic :
      (i.mnemonic.toList ++
          Operand.texts i.operands).takeWhile (· ≠ ' ') =
        i.mnemonic.toList := by
    rw [List.takeWhile_append_of_pos hWord,
      Operand.takeWhile_texts, List.append_nil]
  have hOperands :
      (i.mnemonic.toList ++
          Operand.texts i.operands).dropWhile (· ≠ ' ') =
        Operand.texts i.operands := by
    rw [List.dropWhile_append_of_pos hWord,
      Operand.dropWhile_texts]
  simp only [read?, hWords, hMnemonic, hOperands,
    operands?_texts, String.ofList_toList,
    Option.bind_some, ofParts?_mnemonic_operands]

theorem notMem_render
    {c : Char}
    (hMark : c = ':' ∨ c = '\n')
    (i : Instr) :
    c ∉ i.render.toList := by
  have hMnemonic := i.notMem_mnemonic (.inr (.inr hMark))
  have hOperand := Operand.notMem_text (.inr (.inr hMark))
  rw [toList_render, List.mem_append, not_or]
  refine ⟨hMnemonic, ?_⟩
  rcases hMark with rfl | rfl <;>
    cases i <;>
    simp [operands, Operand.texts,
      List.intercalate_cons_cons, hOperand]

end Instr

------------------------------------------------------------
-- Rendered Lines
------------------------------------------------------------

namespace Line

/- A line of assembly is put out as one line. -/
theorem isLine_render
    (line : Line) :
    IsLine line.render := by
  cases line with
  | intelSyntax =>
      exact ⟨".intel_syntax noprefix".toList, by simp,
        by simp [render]⟩
  | globalMain =>
      exact ⟨".globl main".toList, by simp,
        by simp [render]⟩
  | mainLabel =>
      exact ⟨"main:".toList, by simp, by simp [render]⟩
  | label l =>
      have hName : '\n' ∉ l.name.toList :=
        l.notMem_name (.inr (.inr (.inr rfl)))
      exact ⟨(l.name ++ ":").toList, by simp [hName],
        by simp [render]⟩
  | instr i =>
      exact ⟨("  " ++ i.render).toList,
        by simp [i.notMem_render (.inr rfl)], by simp [render]⟩

/- The text of a line without its end. -/
def text
    (line : Line) :
    List Char :=
  line.render.toList.dropLast

theorem render_eq_text
    (line : Line) :
    line.render.toList = line.text ++ ['\n'] ∧
      '\n' ∉ line.text := by
  rcases line.isLine_render with ⟨cs, hUnbroken, hRender⟩
  have hText : line.text = cs := by
    rw [text, hRender, List.dropLast_concat]
  rw [hText]
  exact ⟨hRender, hUnbroken⟩

theorem text_instr
    (i : Instr) :
    (Line.instr i).text = ' ' :: ' ' :: i.render.toList := by
  have hRender :
      (Line.instr i).render.toList =
        ' ' :: ' ' :: i.render.toList ++ ['\n'] := by
    simp [render]
  rw [text, hRender, List.dropLast_concat]

/- In the text of a line stands the name it defines. -/
theorem definition?_text
    (line : Line) :
    definition? line.text =
      line.defines?.map String.toList := by
  cases line with
  | intelSyntax => simp [text, render, definition?, defines?]
  | globalMain => simp [text, render, definition?, defines?]
  | mainLabel => simp [text, render, definition?, defines?]
  | label l => simp [text, render, definition?, defines?]
  | instr i =>
      have hColon : ':' ∉ ' ' :: ' ' :: i.render.toList := by
        simp [i.notMem_render (.inl rfl)]
      rw [text_instr, definition?, if_neg]
      · rfl
      · intro hLast
        exact hColon (List.mem_of_getLast? hLast)

/- A line is read back from its text. -/
theorem read?_text
    (line : Line) :
    read? line.text = some line := by
  have hDefinition := line.definition?_text
  cases line with
  | intelSyntax => rfl
  | globalMain => rfl
  | mainLabel => rfl
  | label l =>
      have hMain : l.name.toList ≠ "main".toList :=
        fun h => l.name_ne_main (String.toList_inj.mp h)
      have hOther :
          ∀ other, definition? other = none →
            (Line.label l).text ≠ other := by
        rintro other hNone rfl
        rw [hNone] at hDefinition
        cases hDefinition
      rw [read?, if_neg (hOther _ rfl), if_neg (hOther _ rfl),
        hDefinition]
      simp only [defines?, Option.map_some, if_neg hMain,
        Label.read?_name]
  | instr i =>
      rw [text_instr] at hDefinition ⊢
      rw [read?, hDefinition, Instr.read?_render]
      simp [defines?]

end Line

/- Rendered lines are split where they were joined. -/
theorem splitOn_join
    (lines : List Line) :
    (String.join (lines.map Line.render)).toList.splitOn
        '\n' =
      lines.map Line.text ++ [[]] := by
  induction lines with
  | nil => simp
  | cons line lines ih =>
      rcases line.render_eq_text with ⟨hRender, hUnbroken⟩
      rw [List.map_cons, String.join_cons,
        String.toList_append, hRender, List.append_assoc,
        List.singleton_append,
        List.splitOn_append_cons_self_of_not_mem hUnbroken,
        ih, List.map_cons, List.cons_append]

/- Rendered lines are read back from their text. -/
theorem program?_join
    {lines : List Line}
    (hSyntax : lines.head? = some .intelSyntax) :
    program?
        (String.join (lines.map Line.render)).toList =
      some lines := by
  -- A line that can be read is not empty.
  have hSome :
      ∀ text ∈ lines.map Line.text,
        decide (text ≠ []) = true := by
    intro text hMem
    rcases List.mem_map.mp hMem with ⟨line, _, rfl⟩
    refine decide_eq_true fun hText => ?_
    have hRead := line.read?_text
    rw [hText] at hRead
    cases hRead
  have hLast :
      [([] : List Char)].filter (fun text => text ≠ []) = [] :=
    rfl
  rw [program?, splitOn_join, List.filter_append,
    List.filter_eq_self.mpr hSome, hLast, List.append_nil,
    mapM_map_eq_some Line.read?_text, Option.filter_some,
    if_pos (decide_eq_true hSyntax)]

end Assembly

end ExprCompiler
