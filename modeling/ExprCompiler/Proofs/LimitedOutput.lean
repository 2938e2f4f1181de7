import ExprCompiler.Proofs.AssemblyCorrectness

/-
  Assembly that is written to a sink with a limit.

  Key definitions include:
    * `firstLines`
    * `Program.unknown?`
    * `Assembly.Writer.after`
    * `Assembly.Writer.IsFree`
    * `Assembly.Writer.cutOff`

  Main declarations:
    * `firstLines_join`
    * `Sink.writeAll_of_room_eq_some`
    * `Assembly.failure_body`
    * `Assembly.Writer.IsFree.cutOff_write`
    * `Assembly.Writer.limited_output_is_cut_off`

  A writer to a sink with a limit is at all times what one
  without a limit becomes if its output is cut off. It keeps
  numbering divisions when nothing more is put out, so the
  lines of later programs are the same for both.
-/

------------------------------------------------------------
-- Lines of a Text
------------------------------------------------------------

namespace ExprCompiler

/- A text up to the end of the line with a given number. -/
def firstLines : List Char → Nat → List Char
| [], _ => []
| _ :: _, 0 => []
| c :: cs, n + 1 =>
    c :: firstLines cs (if c = '\n' then n else n + 1)

theorem firstLines_zero
    (cs : List Char) :
    firstLines cs 0 = [] := by
  cases cs with
  | nil => rw [firstLines]
  | cons c cs => rw [firstLines]

/- The first line of a text is taken as a whole. -/
theorem firstLines_line
    {cs : List Char}
    (hUnbroken : '\n' ∉ cs)
    (rest : List Char)
    (n : Nat) :
    firstLines (cs ++ '\n' :: rest) (n + 1) =
      cs ++ '\n' :: firstLines rest n := by
  induction cs with
  | nil => simp [firstLines]
  | cons c cs ih =>
      rw [List.mem_cons, not_or] at hUnbroken
      have hOther : c ≠ '\n' := fun h => hUnbroken.1 h.symm
      rw [List.cons_append, firstLines, if_neg hOther,
        ih hUnbroken.2, List.cons_append]

/- The first lines of joined lines are the first of them. -/
theorem firstLines_join
    {pieces : List String}
    (hLines : ∀ piece ∈ pieces, IsLine piece)
    (n : Nat) :
    firstLines (String.join pieces).toList n =
      (String.join (pieces.take n)).toList := by
  induction pieces generalizing n with
  | nil => simp [firstLines]
  | cons piece pieces ih =>
      rw [List.forall_mem_cons] at hLines
      cases n with
      | zero => simp [firstLines_zero]
      | succ n =>
          rcases hLines.1 with ⟨cs, hUnbroken, hPiece⟩
          rw [String.join_cons, String.toList_append,
            hPiece, List.append_assoc,
            List.singleton_append,
            firstLines_line hUnbroken, ih hLines.2 n,
            List.take_succ_cons, String.join_cons,
            String.toList_append, hPiece]
          simp

theorem count_newline_join
    {pieces : List String}
    (hLines : ∀ piece ∈ pieces, IsLine piece) :
    (String.join pieces).toList.count '\n' =
      pieces.length := by
  induction pieces with
  | nil => simp
  | cons piece pieces ih =>
      rw [List.forall_mem_cons] at hLines
      rcases hLines.1 with ⟨cs, hUnbroken, hPiece⟩
      rw [String.join_cons, String.toList_append,
        List.count_append, ih hLines.2, hPiece,
        List.count_append,
        List.count_eq_zero.mpr hUnbroken,
        List.count_singleton_self, List.length_cons]
      omega

------------------------------------------------------------
-- Unknown Opcodes
------------------------------------------------------------

/- The code of an unknown opcode. -/
def Opcode.unknown? : Opcode → Option UInt8
| .unknown code _ => some code
| _ => none

/- The first unknown opcode of a program. -/
def Program.unknown?
    (p : Program) :
    Option UInt8 :=
  p.findSome? (·.opcode.unknown?)

namespace Assembly

/- Only an unknown opcode cannot be put out. -/
theorem assembly_cases
    (n : Nat)
    (i : Instruction) :
    (∃ chunk, i.opcode.unknown? = none ∧
        i.assembly n = .ok chunk) ∨
      ∃ code, i.opcode.unknown? = some code ∧
        i.assembly n =
          .error (.unknownOp (.opcode code)) := by
  unfold Instruction.assembly
  cases i.opcode with
  | unknown code h => exact .inr ⟨code, rfl, rfl⟩
  | _ => exact .inl ⟨_, rfl, rfl⟩

/- A listing is cut short by the first unknown opcode. -/
theorem failure_body
    (n : Nat)
    (p : Program) :
    (body n p).failure =
      p.unknown?.map fun code =>
        .unknownOp (.opcode code) := by
  induction p generalizing n with
  | nil => rfl
  | cons i p ih =>
      rw [Program.unknown?, List.findSome?_cons]
      rcases assembly_cases n i with
        ⟨chunk, hKnown, hChunk⟩ | ⟨code, hUnknown, hError⟩
      · rw [body_cons_of_ok hChunk, hKnown]
        exact ih _
      · simp only [body, hError, hUnknown, Option.map_some]

end Assembly

------------------------------------------------------------
-- Sinks with a Limit
------------------------------------------------------------

/- A sink with a limit takes pieces as long as it has room. -/
theorem Sink.writeAll_of_room_eq_some
    {s : Sink}
    {n : Nat}
    (hRoom : s.room = some n)
    (pieces : List String) :
    s.writeAll pieces =
      (if n < pieces.length then .error s.refused
        else .ok (),
       { s with
         room := some (n - pieces.length)
         written := (pieces.take n).reverse ++ s.written }) := by
  induction pieces generalizing s n with
  | nil => simp [writeAll, ← hRoom]
  | cons piece rest ih =>
      cases n with
      | zero =>
          rcases s with ⟨room, refusal, written⟩
          cases hRoom
          simp [writeAll, write]
      | succ n =>
          simp only [writeAll, write, hRoom]
          rw [ih rfl]
          simp [refused]

namespace Assembly

namespace Writer

------------------------------------------------------------
-- Two Writers Side by Side
------------------------------------------------------------

/- The writer behind the given programs. -/
def after
    (programs : List Program)
    (w : Writer) :
    Writer :=
  programs.foldl (fun w p => (w.write p).2) w

/- A writer to a sink that takes everything. -/
structure IsFree
    (w : Writer) :
    Prop where
  room_eq : w.sink.room = none
  failure_eq : w.failure = none
  isLine : ∀ piece ∈ w.sink.written, IsLine piece

/-
  What a writer would be if its sink took no more than the
  given number of lines: the first of them are put out, and
  if these are not all there is a failure.
-/
def cutOff
    (limit : Nat)
    (refusal : String)
    (w : Writer) :
    Writer where
  sink :=
    { room := some (limit - w.sink.written.length)
      refusal := refusal
      written := (w.sink.written.reverse.take limit).reverse }
  divisions := w.divisions
  failure :=
    if limit < w.sink.written.length then
      some ⟨.described refusal, []⟩
    else
      none

/- Both kinds of writers begin with nothing. -/
theorem cutOff_fresh
    (limit : Nat)
    (refusal : String) :
    cutOff limit refusal { sink := {} } =
      { sink := ⟨some limit, refusal, []⟩ } := by
  simp [cutOff]

theorem isFree_fresh :
    IsFree { sink := {} } := by
  constructor <;> simp

section Lines

variable {w : Writer}

/- A free writer puts out all lines. -/
theorem IsFree.put_eq
    (hFree : w.IsFree)
    (lines : List Line) :
    w.put lines =
      { w with
        sink :=
          { w.sink with
            written := (lines.map Line.render).reverse ++
              w.sink.written } } := by
  simp only [put, hFree.failure_eq,
    Sink.writeAll_of_room_eq_none hFree.room_eq]

theorem IsFree.put
    (hFree : w.IsFree)
    (lines : List Line) :
    (w.put lines).IsFree := by
  rw [hFree.put_eq]
  refine ⟨hFree.room_eq, hFree.failure_eq, ?_⟩
  intro piece hPiece
  rcases List.mem_append.mp hPiece with hNew | hOld
  · rw [List.mem_reverse] at hNew
    rcases List.mem_map.mp hNew with ⟨line, _, rfl⟩
    exact line.isLine_render
  · exact hFree.isLine piece hOld

/- A failure that is held ends the output for good. -/
theorem put_of_failure
    {f : Failure}
    (hFailure : w.failure = some f)
    (lines : List Line) :
    w.put lines = w := by
  simp only [put, hFailure]

/- A writer to a sink with a limit uses the room it has. -/
theorem put_of_room_eq_some
    (hFailure : w.failure = none)
    {n : Nat}
    (hRoom : w.sink.room = some n)
    (lines : List Line) :
    w.put lines =
      { w with
        sink :=
          { w.sink with
            room := some (n - lines.length)
            written :=
              ((lines.map Line.render).take n).reverse ++
                w.sink.written }
        failure :=
          if n < lines.length then
            some w.sink.refused
          else
            none } := by
  simp only [put, hFailure,
    Sink.writeAll_of_room_eq_some hRoom, List.length_map]
  by_cases hMore : n < lines.length
  · simp only [if_pos hMore]
  · simp only [if_neg hMore]

/- Cutting off goes along with putting out lines. -/
theorem IsFree.cutOff_put
    (hFree : w.IsFree)
    (limit : Nat)
    (refusal : String)
    (lines : List Line) :
    (w.put lines).cutOff limit refusal =
      (w.cutOff limit refusal).put lines := by
  have hWritten :
      (((lines.map Line.render).reverse ++
          w.sink.written).reverse.take limit).reverse =
        ((lines.map Line.render).take
            (limit - w.sink.written.length)).reverse ++
          (w.sink.written.reverse.take limit).reverse := by
    rw [List.reverse_append, List.reverse_reverse,
      List.take_append, List.reverse_append,
      List.length_reverse]
  have hLength :
      ((lines.map Line.render).reverse ++
          w.sink.written).length =
        lines.length + w.sink.written.length := by
    rw [List.length_append, List.length_reverse,
      List.length_map]
  rw [hFree.put_eq]
  by_cases hAhead : limit < w.sink.written.length
  · -- The failure is held, so that nothing is put out.
    have hFailure :
        (w.cutOff limit refusal).failure =
          some ⟨.described refusal, []⟩ :=
      if_pos hAhead
    have hFull : limit - w.sink.written.length = 0 := by
      omega
    have hFuller :
        limit - (lines.length + w.sink.written.length) =
          0 := by
      omega
    have hMore :
        limit < lines.length + w.sink.written.length := by
      omega
    rw [put_of_failure hFailure]
    simp only [cutOff, hWritten, hLength, hFull, hFuller,
      if_pos hAhead, if_pos hMore, List.take_zero,
      List.reverse_nil, List.nil_append]
  · have hFailure :
        (w.cutOff limit refusal).failure = none :=
      if_neg hAhead
    have hRoom :
        limit - (lines.length + w.sink.written.length) =
          limit - w.sink.written.length -
            lines.length := by
      omega
    have hMore :
        limit < lines.length + w.sink.written.length ↔
          limit - w.sink.written.length <
            lines.length := by
      omega
    rw [put_of_room_eq_some hFailure rfl]
    simp only [cutOff, hWritten, hLength, hRoom, hMore,
      Sink.refused]

end Lines

------------------------------------------------------------
-- Programs
------------------------------------------------------------

section Programs

variable {w : Writer}

/- The writer behind a program, whether or not it fails. -/
theorem write_snd
    (p : Program)
    (w : Writer) :
    (w.write p).2 =
      { w.put (p.assembly w.divisions).lines with
        divisions := (p.assembly w.divisions).divisions } := by
  unfold write
  dsimp only
  split
  · rfl
  · rfl

/- An unknown opcode is reported in front of a refusal. -/
theorem write_fst
    (p : Program)
    (w : Writer) :
    (w.write p).1 =
      ((p.unknown?.map fun code =>
            Failure.unknownOp (.opcode code)) <|>
          (w.write p).2.failure).elim (.ok ()) .error := by
  rw [write_snd, ← failure_body w.divisions,
    ← failure_assembly]
  unfold write
  dsimp only
  split
  · rename_i f hFailure
    rw [hFailure, Option.elim_some]
  · rename_i hFailure
    rw [hFailure, Option.elim_none]

theorem IsFree.write
    (hFree : w.IsFree)
    (p : Program) :
    (w.write p).2.IsFree := by
  rw [write_snd]
  rcases hFree.put (p.assembly w.divisions).lines with
    ⟨hRoom, hFailure, hLines⟩
  exact ⟨hRoom, hFailure, hLines⟩

/- Cutting off goes along with writing a program. -/
theorem IsFree.cutOff_write
    (hFree : w.IsFree)
    (limit : Nat)
    (refusal : String)
    (p : Program) :
    (w.write p).2.cutOff limit refusal =
      ((w.cutOff limit refusal).write p).2 := by
  rw [write_snd, write_snd]
  have hPut :=
    hFree.cutOff_put limit refusal
      (p.assembly w.divisions).lines
  exact congrArg
    (fun v : Writer =>
      { v with
        divisions := (p.assembly w.divisions).divisions })
    hPut

/- How a program is answered by a writer that is cut off. -/
theorem IsFree.write_cutOff_fst
    (hFree : w.IsFree)
    (limit : Nat)
    (refusal : String)
    (p : Program) :
    ((w.cutOff limit refusal).write p).1 =
      ((p.unknown?.map fun code =>
            Failure.unknownOp (.opcode code)) <|>
          if limit < (w.write p).2.sink.written.length then
            some (Failure.mk (.described refusal) [])
          else
            none).elim (.ok ()) .error := by
  rw [write_fst, ← hFree.cutOff_write]
  rfl

theorem after_append
    (programs : List Program)
    (p : Program)
    (more : List Program)
    (w : Writer) :
    w.after (programs ++ p :: more) =
      ((w.after programs).write p).2.after more := by
  simp only [after, List.foldl_append, List.foldl_cons]

theorem after_concat
    (programs : List Program)
    (p : Program)
    (w : Writer) :
    w.after (programs ++ [p]) =
      ((w.after programs).write p).2 :=
  after_append programs p [] w

/- Both go on alike through all programs. -/
theorem IsFree.after
    (hFree : w.IsFree)
    (limit : Nat)
    (refusal : String)
    (programs : List Program) :
    (w.after programs).IsFree ∧
      (w.after programs).cutOff limit refusal =
        (w.cutOff limit refusal).after programs := by
  induction programs generalizing w with
  | nil => exact ⟨hFree, rfl⟩
  | cons p programs ih =>
      have hRest := ih (hFree.write p)
      rw [hFree.cutOff_write] at hRest
      exact hRest

end Programs

------------------------------------------------------------
-- Output
------------------------------------------------------------

section Output

variable {w : Writer}

theorem IsFree.output_cutOff
    (hFree : w.IsFree)
    (limit : Nat)
    (refusal : String) :
    (w.cutOff limit refusal).sink.output.toList =
      firstLines w.sink.output.toList limit := by
  rw [Sink.output, Sink.output, firstLines_join]
  · simp only [cutOff, List.reverse_reverse]
  · intro piece hPiece
    exact hFree.isLine piece (List.mem_reverse.mp hPiece)

theorem IsFree.count_output
    (hFree : w.IsFree) :
    w.sink.output.toList.count '\n' =
      w.sink.written.length := by
  rw [Sink.output, count_newline_join]
  · exact List.length_reverse
  · intro piece hPiece
    exact hFree.isLine piece (List.mem_reverse.mp hPiece)

end Output

/-
  A sink with a limit cuts the output of all programs off at
  the end of a line. Each program is answered by its first
  unknown opcode, else by the refusal of the sink if, with
  this program, there are more lines than it takes.
-/
theorem limited_output_is_cut_off
    (limit : Nat)
    (refusal : String)
    (programs : List Program) :
    let limited : Writer :=
      { sink := { room := some limit, refusal := refusal } }
    let free : Writer := { sink := {} }
    (limited.after programs).sink.output.toList =
        firstLines (free.after programs).sink.output.toList
          limit ∧
      ∀ before p behind, programs = before ++ p :: behind →
        let outcome := ((limited.after before).write p).1
        let lines :=
          (free.after
            (before ++ [p])).sink.output.toList.count '\n'
        (∀ code, p.unknown? = some code →
            outcome =
              .error ⟨.unknownOp, [.opcode code]⟩) ∧
          (p.unknown? = none → limit < lines →
            outcome = .error ⟨.described refusal, []⟩) ∧
          (p.unknown? = none → lines ≤ limit →
            outcome = .ok ()) := by
  intro limited free
  have hAfter :
      ∀ ps, (free.after ps).IsFree ∧
        (free.after ps).cutOff limit refusal =
          limited.after ps := by
    intro ps
    have hCut := isFree_fresh.after limit refusal ps
    rw [cutOff_fresh] at hCut
    exact hCut
  refine ⟨?_, ?_⟩
  · rcases hAfter programs with ⟨hFree, hCut⟩
    rw [← hCut, hFree.output_cutOff]
  · intro before p behind _ outcome lines
    rcases hAfter before with ⟨hFree, hCut⟩
    have hOutcome :=
      hFree.write_cutOff_fst limit refusal p
    rw [hCut, ← (hFree.write p).count_output,
      ← after_concat] at hOutcome
    refine ⟨?_, ?_, ?_⟩
    · intro code hUnknown
      rw [hUnknown] at hOutcome
      exact hOutcome
    · intro hKnown hMore
      rw [hKnown, if_pos hMore] at hOutcome
      exact hOutcome
    · intro hKnown hFits
      rw [hKnown, if_neg (Nat.not_lt.mpr hFits)] at hOutcome
      exact hOutcome

/-
  A sink takes nineteen lines. Of a program that is cut
  short behind a division there are eighteen, and the
  program behind it is refused at its second.
-/
theorem limited_output_behind_unknown_opcode :
    let cut : Program :=
      [.ofNumber 4, .ofNumber 0, .ofOpcode .div,
        .ofOpcode (.unknown 7 (by decide))]
    let limited : Writer :=
      { sink :=
          { room := some 19, refusal := "disk full" } }
    ((limited.after []).write cut).1 =
        .error ⟨.unknownOp, [.opcode 7]⟩ ∧
      ((limited.after [cut]).write [.ofNumber 3]).1 =
        .error ⟨.described "disk full", []⟩ := by
  intro cut limited
  have hCalls :=
    (limited_output_is_cut_off 19 "disk full"
      [cut, [.ofNumber 3]]).2
  have hLines :
      19 < (after [cut, [.ofNumber 3]]
        { sink := {} }).sink.output.toList.count '\n' := by
    rw [(isFree_fresh.after 19 "disk full" _).1.count_output]
    decide +kernel
  exact ⟨(hCalls [] cut [[.ofNumber 3]] rfl).1 7 rfl,
    (hCalls [cut] [.ofNumber 3] [] rfl).2.1 rfl hLines⟩

end Writer

end Assembly

end ExprCompiler
