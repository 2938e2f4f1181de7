import ExprCompiler.Command.Session
import ExprCompiler.Proofs.Concatenation
import Mathlib.Data.List.TakeWhile

/-
  Expressions given as arguments and expressions given in
  the input.

  Key definitions include:
    * `Text.IsPlainLine`
    * `Text.IsBlankLine`
    * `Text.Writes`

  Main declarations:
    * `Text.splitLines_cons`
    * `Text.readLines_of_writes`
    * `Options.parse_append_endOfFlags`
    * `runCommand_arguments_eq_input`

  A stream is cut at its line feeds, and what is left of it
  without carriage returns and blank lines are the lines it
  was written from. Behind the end of the flags, arguments
  are taken as they are. So both ways lead to the same job.
-/

------------------------------------------------------------
-- Lines of a Stream
------------------------------------------------------------

namespace ExprCompiler

namespace Text

section Splitting

variable {line : Text}

/- The lines seen so far come before all others. -/
theorem splitFrom_eq_append
    (seen : List Text)
    (current t : Text) :
    splitFrom seen current t =
      seen.reverse ++ splitFrom [] current t := by
  induction t generalizing seen current with
  | nil => cases current <;> simp [splitFrom]
  | cons b t ih =>
      simp only [splitFrom]
      split
      · rw [ih (current.reverse :: seen),
          ih [current.reverse]]
        simp
      · exact ih seen (b :: current)

/- Bytes that end no line are added to the current one. -/
theorem splitFrom_append
    (hFeed : 0x0A ∉ line)
    (current rest : Text) :
    splitFrom [] current (line ++ rest) =
      splitFrom [] (line.reverse ++ current) rest := by
  induction line generalizing current with
  | nil => rfl
  | cons b line ih =>
      rw [List.mem_cons, not_or] at hFeed
      rw [List.cons_append, splitFrom,
        if_neg (Ne.symm hFeed.1), ih hFeed.2]
      simp

/- A line feed ends a line. -/
theorem splitLines_cons
    (hFeed : 0x0A ∉ line)
    (rest : Text) :
    splitLines (line ++ 0x0A :: rest) =
      line :: splitLines rest := by
  rw [splitLines, splitFrom_append hFeed, splitFrom,
    if_pos rfl, splitFrom_eq_append]
  simp [splitLines]

/- The last line needs no line feed, unless it is empty. -/
theorem splitLines_last
    (hFeed : 0x0A ∉ line)
    (hNonempty : line ≠ []) :
    splitLines line = [line] := by
  have hSplit := splitFrom_append hFeed [] []
  rw [List.append_nil, List.append_nil] at hSplit
  rw [splitLines, hSplit]
  cases hReverse : line.reverse with
  | nil =>
      exact absurd (List.reverse_eq_nil_iff.mp hReverse)
        hNonempty
  | cons b bs =>
      rw [splitFrom, ← hReverse]
      simp

end Splitting

------------------------------------------------------------
-- Carriage Returns
------------------------------------------------------------

theorem dropReturn_append
    (line : Text) :
    dropReturn (line ++ [0x0D]) = line := by
  simp [dropReturn]

/- A carriage return is white space itself. -/
theorem isBlank_append_return
    (line : Text) :
    isBlank (line ++ [0x0D]) = isBlank line := by
  have hGlyphs :
      glyphs (line ++ [0x0D]) =
        line.glyphs ++ [.char '\r'] := by
    rw [glyphs_append (by simp [Glyph.isContinuation])]
    rfl
  have hSpace : Glyph.isSpace (.char '\r') = true := by
    decide
  simp [isBlank, hGlyphs, hSpace]

theorem isBlank_dropReturn
    (line : Text) :
    isBlank (dropReturn line) = isBlank line := by
  by_cases hReturn : line.getLast? = some 0x0D
  · rcases List.getLast?_eq_some_iff.mp hReturn with
      ⟨rest, rfl⟩
    rw [dropReturn_append, isBlank_append_return]
  · rw [dropReturn, if_neg hReturn]

------------------------------------------------------------
-- Writing Lines
------------------------------------------------------------

/- A line ends with a line feed, or with a return as well. -/
def IsLineEnd
    (ending : Text) :
    Prop :=
  ending = newline ∨ ending = 0x0D :: newline

/- A line that reading leaves as it is. -/
structure IsPlainLine
    (line : Text) :
    Prop where
  noFeed : 0x0A ∉ line
  notBlank : line.isBlank = false
  noReturn : line.getLast? ≠ some 0x0D
  short : line.length ≤ 65534

/- A line that reading passes over. -/
structure IsBlankLine
    (line : Text) :
    Prop where
  noFeed : 0x0A ∉ line
  blank : line.isBlank = true
  short : line.length < 65535

instance
    (line : Text) :
    Decidable line.IsPlainLine :=
  decidable_of_iff
    (0x0A ∉ line ∧ line.isBlank = false ∧
      line.getLast? ≠ some 0x0D ∧ line.length ≤ 65534)
    ⟨fun ⟨hFeed, hBlank, hReturn, hShort⟩ =>
        ⟨hFeed, hBlank, hReturn, hShort⟩,
      fun ⟨hFeed, hBlank, hReturn, hShort⟩ =>
        ⟨hFeed, hBlank, hReturn, hShort⟩⟩

instance
    (line : Text) :
    Decidable line.IsBlankLine :=
  decidable_of_iff
    (0x0A ∉ line ∧ line.isBlank = true ∧
      line.length < 65535)
    ⟨fun ⟨hFeed, hBlank, hShort⟩ => ⟨hFeed, hBlank, hShort⟩,
      fun ⟨hFeed, hBlank, hShort⟩ => ⟨hFeed, hBlank, hShort⟩⟩

/-
  A stream writes lines in their order, each with an ending,
  among any number of blank lines. The last line of the
  stream needs no ending.
-/
inductive Writes : Text → List Text → Prop
  | last
      (line : Text) :
      Writes line [line]
  | lastBlank
      {line : Text}
      (hBlank : IsBlankLine line) :
      Writes line []
  | line
      {ending rest : Text}
      {lines : List Text}
      (line : Text)
      (hEnd : IsLineEnd ending)
      (h : Writes rest lines) :
      Writes (line ++ ending ++ rest) (line :: lines)
  | blank
      {line ending rest : Text}
      {lines : List Text}
      (hBlank : IsBlankLine line)
      (hEnd : IsLineEnd ending)
      (h : Writes rest lines) :
      Writes (line ++ ending ++ rest) lines

section Reading

variable {line ending stream : Text}
variable {lines : List Text}

/- A line is split off with the return of its ending. -/
theorem splitLines_ended
    (hFeed : 0x0A ∉ line)
    (hEnd : IsLineEnd ending)
    (rest : Text) :
    ∃ raw,
      splitLines (line ++ ending ++ rest) =
          raw :: splitLines rest ∧
        (raw = line ∨ raw = line ++ [0x0D]) := by
  rcases hEnd with rfl | rfl
  · refine ⟨line, ?_, .inl rfl⟩
    rw [List.append_assoc]
    exact splitLines_cons hFeed rest
  · refine ⟨line ++ [0x0D], ?_, .inr rfl⟩
    have hFeed' : 0x0A ∉ line ++ [0x0D] := by
      simp [hFeed]
    rw [← splitLines_cons hFeed' rest]
    simp [newline]

/- The lines that are kept, without their returns. -/
def keptLines
    (raws : List Text) :
    List Text :=
  (raws.map dropReturn).filter fun line => !line.isBlank

theorem keptLines_cons_plain
    {raw : Text}
    (hPlain : IsPlainLine line)
    (hRaw : raw = line ∨ raw = line ++ [0x0D])
    (raws : List Text) :
    keptLines (raw :: raws) = line :: keptLines raws := by
  have hDrop : dropReturn raw = line := by
    rcases hRaw with rfl | rfl
    · rw [dropReturn, if_neg hPlain.noReturn]
    · exact dropReturn_append line
  rw [keptLines, List.map_cons, hDrop,
    List.filter_cons_of_pos (by simp [hPlain.notBlank])]
  rfl

theorem keptLines_cons_blank
    {raw : Text}
    (hBlank : line.isBlank = true)
    (hRaw : raw = line ∨ raw = line ++ [0x0D])
    (raws : List Text) :
    keptLines (raw :: raws) = keptLines raws := by
  have hDrop : (dropReturn raw).isBlank = true := by
    rw [isBlank_dropReturn]
    rcases hRaw with rfl | rfl
    · exact hBlank
    · rw [isBlank_append_return, hBlank]
  rw [keptLines, List.map_cons,
    List.filter_cons_of_neg (by simp [hDrop])]
  rfl

/- There is room for the return of an ending. -/
theorem length_lt_of_raw
    {raw : Text}
    (hShort : line.length < 65535)
    (hRaw : raw = line ∨ raw = line ++ [0x0D]) :
    raw.length < lineLimit := by
  unfold lineLimit
  rcases hRaw with rfl | rfl
  · omega
  · rw [List.length_append, List.length_singleton]
    omega

/- A stream is split into short lines; the plain are kept. -/
theorem splitLines_of_writes
    (hPlain : ∀ line ∈ lines, IsPlainLine line)
    (hWrites : Writes stream lines) :
    (∀ raw ∈ splitLines stream,
        raw.length < lineLimit) ∧
      keptLines (splitLines stream) = lines := by
  induction hWrites with
  | last line =>
      have hLine := hPlain line List.mem_cons_self
      have hNonempty : line ≠ [] := by
        rintro rfl
        cases hLine.notBlank
      rw [splitLines_last hLine.noFeed hNonempty,
        keptLines_cons_plain hLine (.inl rfl)]
      exact ⟨List.forall_mem_singleton.mpr
        (length_lt_of_raw (Nat.lt_succ_of_le hLine.short)
          (.inl rfl)), rfl⟩
  | @lastBlank line hBlank =>
      by_cases hEmpty : line = []
      · subst hEmpty
        exact ⟨by simp [splitLines, splitFrom], rfl⟩
      · rw [splitLines_last hBlank.noFeed hEmpty,
          keptLines_cons_blank hBlank.blank (.inl rfl)]
        exact ⟨List.forall_mem_singleton.mpr
          (length_lt_of_raw hBlank.short (.inl rfl)), rfl⟩
  | @line ending rest lines line hEnd _ ih =>
      rcases List.forall_mem_cons.mp hPlain with
        ⟨hLine, hLines⟩
      rcases ih hLines with ⟨hShort, hKept⟩
      rcases splitLines_ended hLine.noFeed hEnd rest with
        ⟨raw, hSplit, hRaw⟩
      rw [hSplit, keptLines_cons_plain hLine hRaw, hKept]
      exact ⟨List.forall_mem_cons.mpr
        ⟨length_lt_of_raw (Nat.lt_succ_of_le hLine.short)
          hRaw, hShort⟩, rfl⟩
  | @blank line ending rest lines hBlank hEnd _ ih =>
      rcases ih hPlain with ⟨hShort, hKept⟩
      rcases splitLines_ended hBlank.noFeed hEnd rest with
        ⟨raw, hSplit, hRaw⟩
      rw [hSplit, keptLines_cons_blank hBlank.blank hRaw,
        hKept]
      exact ⟨List.forall_mem_cons.mpr
        ⟨length_lt_of_raw hBlank.short hRaw, hShort⟩, rfl⟩

/- The lines that a stream writes are read from it. -/
theorem readLines_of_writes
    (hPlain : ∀ line ∈ lines, IsPlainLine line)
    (hWrites : Writes stream lines) :
    stream.readLines = ⟨lines, none⟩ := by
  rcases splitLines_of_writes hPlain hWrites with
    ⟨hShort, hKept⟩
  have hAll :
      (splitLines stream).takeWhile
          (fun line => decide (line.length < lineLimit)) =
        splitLines stream := by
    rw [List.takeWhile_eq_self_iff]
    simpa using hShort
  simp only [readLines, hAll]
  rw [if_neg (Nat.lt_irrefl _), ← hKept]
  rfl

end Reading

end Text

------------------------------------------------------------
-- Arguments behind the Flags
------------------------------------------------------------

/- Two dashes alone end the flags. -/
theorem Argument.ofText_eq_endOfFlags_iff
    {arg : Text} :
    ofText arg = .endOfFlags ↔
      arg = Text.ofString "--" := by
  have hDashes : Text.ofString "--" = [0x2D, 0x2D] := rfl
  rw [hDashes]
  constructor
  · intro hEnd
    unfold ofText at hEnd
    split at hEnd
    · rfl
    · cases hEnd
    · cases hEnd
    · unfold ofLong at hEnd
      split at hEnd <;> cases hEnd
    · cases hEnd
    · cases hEnd
  · rintro rfl
    rfl

namespace Options

variable {o o' : Options} {arg : Text}
variable {args : List Text}

/- The first arguments are read whatever comes behind. -/
def BeginsWithFlag
    (o : Options)
    (args : List Text) :
    Prop :=
  ∃ used others next,
    args = used ++ others ∧ used ≠ [] ∧
      ∀ more, parse o (used ++ more) = parse next more

theorem beginsWithFlag_of_step
    (arg : Text)
    (values others : List Text)
    (step : Except ArgumentError Options)
    (hStep :
      ∀ more, parse o (arg :: values ++ more) =
        step >>= fun next => parse next more)
    {out : Options × List Text}
    (hParse : parse o (arg :: values ++ others) = .ok out) :
    BeginsWithFlag o (arg :: values ++ others) := by
  rw [hStep] at hParse
  cases step with
  | error e => cases hParse
  | ok next =>
      exact ⟨arg :: values, others, next, rfl, by simp,
        hStep⟩

/-
  If no expression is among arguments, the first of them is
  a flag. It takes no value, or the argument behind it.
-/
theorem beginsWithFlag_of_parse
    (hArg : arg ≠ Text.ofString "--")
    (hParse : parse o (arg :: args) = .ok (o', [])) :
    BeginsWithFlag o (arg :: args) := by
  cases hKind : Argument.ofText arg with
  | expression =>
      -- The argument itself would be left over.
      rw [parse, hKind] at hParse
      cases hRest : parse o args with
      | error e => simp [hRest, bind, Except.bind] at hParse
      | ok found =>
          simp [hRest, bind, Except.bind, pure,
            Except.pure] at hParse
  | endOfFlags =>
      exact absurd
        (Argument.ofText_eq_endOfFlags_iff.mp hKind) hArg
  | malformed => simp [parse, hKind] at hParse
  | long name value =>
      cases hFlag : Flag.ofName? name with
      | none => simp [parse, hKind, hFlag] at hParse
      | some flag =>
          cases value with
          | some v =>
              refine beginsWithFlag_of_step arg [] args
                (o.set flag v) ?_ hParse
              simp [parse, hKind, hFlag]
          | none =>
              by_cases hSwitch : flag.isSwitch = true
              · refine beginsWithFlag_of_step arg [] args
                  (o.turnOn flag) ?_ hParse
                simp [parse, hKind, hFlag, hSwitch]
              · cases args with
                | nil =>
                    simp [parse, hKind, hFlag, hSwitch]
                      at hParse
                | cons v others =>
                    refine beginsWithFlag_of_step arg [v]
                      others (o.set flag v) ?_ hParse
                    simp [parse, hKind, hFlag, hSwitch]
  | group flags =>
      cases hGroup : o.setGroup flags with
      | error e =>
          simp [parse, hKind, hGroup, bind, Except.bind]
            at hParse
      | ok found =>
          rcases found with ⟨o₁, _ | ⟨flag, c⟩⟩
          · refine beginsWithFlag_of_step arg [] args
              (.ok o₁) ?_ hParse
            simp [parse, hKind, hGroup, bind, Except.bind]
          · cases args with
            | nil =>
                simp [parse, hKind, hGroup, bind,
                  Except.bind] at hParse
            | cons v others =>
                refine beginsWithFlag_of_step arg [v] others
                  (o₁.set flag v) ?_ hParse
                simp [parse, hKind, hGroup, bind,
                  Except.bind]

/-
  Behind flags without expressions, two dashes hand on all
  other arguments as expressions.
-/
theorem parse_append_endOfFlags
    (hDashes : Text.ofString "--" ∉ args)
    (hParse : parse o args = .ok (o', []))
    (rest : List Text) :
    parse o (args ++ Text.ofString "--" :: rest) =
      .ok (o', rest) := by
  -- A flag may take two arguments, hence the length.
  induction hLength : args.length using Nat.strongRecOn
    generalizing o args with
  | ind n ih =>
      subst hLength
      cases args with
      | nil =>
          cases hParse
          rfl
      | cons arg args =>
          have hArg : arg ≠ Text.ofString "--" := by
            rintro rfl
            exact hDashes List.mem_cons_self
          rcases beginsWithFlag_of_parse hArg hParse with
            ⟨used, others, next, hSplit, hUsed, hNext⟩
          rw [hSplit] at hDashes hParse ih ⊢
          rw [hNext] at hParse
          rw [List.append_assoc, hNext]
          have hLess :
              others.length < (used ++ others).length := by
            rw [List.length_append]
            have hPos := List.length_pos_iff.mpr hUsed
            omega
          exact ih others.length hLess
            (fun hMem =>
              hDashes (List.mem_append_right used hMem))
            hParse rfl

end Options

------------------------------------------------------------
-- Calls of the Command
------------------------------------------------------------

namespace Job

theorem ofArguments_eq_ok
    {args expressions : List Text}
    {o : Options}
    {target : Target}
    {overflow : OverflowPolicy}
    (hParse : Options.parse {} args = .ok (o, expressions))
    (hHelp : o.help = false)
    (hTarget : Target.parse o.target = .ok target)
    (hOverflow :
      OverflowPolicy.parse o.overflow = .ok overflow) :
    ofArguments args =
      .ok ⟨⟨target, overflow⟩, o.verbose, expressions⟩ := by
  have hSettings :
      settings? o = .ok ⟨target, overflow⟩ := by
    rw [settings?, hTarget, hOverflow]
    rfl
  simp [ofArguments, hParse, hHelp, hSettings]

/- What is put out is put out line by line. -/
theorem output_emitAll
    (job : Job)
    (lines : List Text) :
    (job.emitAll lines).output =
      lines.flatMap fun line =>
        Text.ofString
          (emit job.settings line {}).sink.output := by
  simp only [emitAll, List.flatMap_map]

/- One line that fails is enough for the exit. -/
theorem exit_emitAll
    (job : Job)
    (lines : List Text) :
    ((∃ line ∈ lines, ∃ f,
        (emit job.settings line {}).outcome = .error f) ∧
        (job.emitAll lines).exit = 1) ∨
      ((∀ line ∈ lines,
        (emit job.settings line {}).outcome = .ok ()) ∧
        (job.emitAll lines).exit = 0) := by
  have hExit :
      (job.emitAll lines).exit =
        if lines.all fun line =>
            (emit job.settings line {}).outcome.isOk
          then 0 else 1 := by
    simp only [emitAll, List.all_map]
    rfl
  rw [hExit]
  cases hAll : lines.all fun line =>
      (emit job.settings line {}).outcome.isOk with
  | false =>
      rw [List.all_eq_false] at hAll
      rcases hAll with ⟨line, hMem, hFails⟩
      refine .inl ⟨⟨line, hMem, ?_⟩, rfl⟩
      cases hOutcome :
          (emit job.settings line {}).outcome with
      | error f => exact ⟨f, rfl⟩
      | ok v =>
          rw [hOutcome] at hFails
          exact absurd rfl hFails
  | true =>
      rw [List.all_eq_true] at hAll
      refine .inr ⟨?_, rfl⟩
      intro line hMem
      have hSucceeds := hAll line hMem
      cases hOutcome :
          (emit job.settings line {}).outcome with
      | ok v => rfl
      | error f =>
          rw [hOutcome] at hSucceeds
          cases hSucceeds

end Job

/-
  Take flags that are read without fail, leave no expression
  over and do not ask for help. Then lines given behind two
  dashes and a stream that writes these lines lead to the
  same exit, output and notices. The output is that of the
  lines in their order, and the exit tells whether one of
  them fails.
-/
theorem runCommand_arguments_eq_input
    {flags lines : List Text}
    {o : Options}
    {target : Target}
    {overflow : OverflowPolicy}
    {stream : Text}
    (hDashes : Text.ofString "--" ∉ flags)
    (hParse : Options.parse {} flags = .ok (o, []))
    (hHelp : o.help = false)
    (hTarget : Target.parse o.target = .ok target)
    (hOverflow :
      OverflowPolicy.parse o.overflow = .ok overflow)
    (hNonempty : lines ≠ [])
    (hPlain : ∀ line ∈ lines, line.IsPlainLine)
    (hWrites : stream.Writes lines)
    (unread : Text) :
    let given :=
      runCommand (flags ++ Text.ofString "--" :: lines)
        unread
    let emitted (line : Text) :=
      emit ⟨target, overflow⟩ line {}
    runCommand flags stream = given ∧
      given.output =
        lines.flatMap (fun line =>
          Text.ofString (emitted line).sink.output) ∧
      ((∃ line ∈ lines, ∃ f,
          (emitted line).outcome = .error f) ∧
          given.exit = 1 ∨
        (∀ line ∈ lines, (emitted line).outcome = .ok ()) ∧
          given.exit = 0) := by
  intro given emitted
  let job : Job := ⟨⟨target, overflow⟩, o.verbose, lines⟩
  have hGiven : given = job.emitAll lines := by
    have hArguments :=
      Options.parse_append_endOfFlags hDashes hParse lines
    simp only [given, runCommand,
      Job.ofArguments_eq_ok hArguments hHelp hTarget
        hOverflow]
    cases lines with
    | nil => exact absurd rfl hNonempty
    | cons line lines => rfl
  have hRead :
      runCommand flags stream = job.emitAll lines := by
    simp only [runCommand,
      Job.ofArguments_eq_ok hParse hHelp hTarget hOverflow,
      Job.run, Job.emitInput,
      Text.readLines_of_writes hPlain hWrites]
    rfl
  rw [hRead, hGiven]
  exact ⟨rfl, job.output_emitAll lines,
    job.exit_emitAll lines⟩

/-
  Of two lines the first divides by zero. In the stream they
  end in different ways, around a line of white space.
-/
theorem runCommand_zero_quotient_first :
    let flags :=
      [Text.ofString "-teval", Text.ofString "--verbose"]
    let lines :=
      [Text.ofString "1/0", Text.ofString " (2+3)*4"]
    let stream :=
      Text.ofString "1/0\r\n \u3000\n (2+3)*4"
    let given :=
      runCommand (flags ++ Text.ofString "--" :: lines) []
    (∀ line ∈ lines, line.IsPlainLine) ∧
      stream.Writes lines ∧
      runCommand flags stream = given ∧
      given.output = Text.ofString "20\n" ∧
      given.exit = 1 := by
  intro flags lines stream given
  have hPlain : ∀ line ∈ lines, line.IsPlainLine := by
    decide +kernel
  have hWrites : stream.Writes lines := by
    have hBlank :
        (Text.ofString " \u3000").IsBlankLine := by
      decide +kernel
    have hStream :
        stream =
          Text.ofString "1/0" ++ 0x0D :: Text.newline ++
            (Text.ofString " \u3000" ++ Text.newline ++
              Text.ofString " (2+3)*4") := by
      decide +kernel
    rw [hStream]
    exact .line _ (.inr rfl)
      (.blank hBlank (.inl rfl) (.last _))
  let o : Options :=
    { target := Text.ofString "eval", verbose := true }
  have hDashes : Text.ofString "--" ∉ flags := by
    decide +kernel
  have hParse :
      Options.parse {} flags = .ok (o, []) := by
    decide +kernel
  have hTarget : Target.parse o.target = .ok .eval := by
    decide +kernel
  have hOverflow :
      OverflowPolicy.parse o.overflow = .ok .wrap := by
    decide +kernel
  have hNonempty : lines ≠ [] := by
    simp [lines]
  rcases runCommand_arguments_eq_input hDashes hParse rfl
      hTarget hOverflow hNonempty hPlain hWrites [] with
    ⟨hSame, hOutput, hExit⟩
  have hText :
      (lines.flatMap fun line =>
          Text.ofString
            (emit ⟨.eval, .wrap⟩ line {}).sink.output) =
        Text.ofString "20\n" := by
    decide +kernel
  have hFails :
      (emit ⟨.eval, .wrap⟩ (Text.ofString "1/0")
        {}).outcome.isOk = false := by
    decide +kernel
  refine ⟨hPlain, hWrites, hSame, hOutput.trans hText, ?_⟩
  rcases hExit with ⟨_, hOne⟩ | ⟨hAll, _⟩
  · exact hOne
  · rw [hAll _ List.mem_cons_self] at hFails
    cases hFails

end ExprCompiler
