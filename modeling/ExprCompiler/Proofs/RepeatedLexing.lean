import ExprCompiler.Proofs.Concatenation

/-
  Lexers that are run again and again.

  Key definitions include:
    * `Glyph.invalidSymbols`
    * `Scan.Cuts`
    * `Lexer.ReadsFrom`
    * `Lexer.after`
    * `Lexer.runAfter`

  Main declarations:
    * `exists_cuts_scan`
    * `Lexer.ReadsFrom.advances`
    * `Lexer.ReadsFrom.result_advance`
    * `Lexer.runAfter_of_error`
    * `Lexer.runAfter_succ_of_ok`
    * `Lexer.error_after`
    * `Lexer.runs_resume`

  A scan stops between two glyphs and leaves the lexemes of
  the glyphs behind that place. So a lexer that is run again
  goes on as a new one would that was given the rest of the
  line only, and keeps its last error if there is no other.
-/

------------------------------------------------------------
-- Invalid Characters
------------------------------------------------------------

namespace ExprCompiler

namespace Glyph

instance
    (g : Glyph) :
    Decidable g.IsLexical :=
  inferInstanceAs (Decidable (_ ∨ _))

/- The errors that the glyphs at an offset are by themselves. -/
def invalidSymbols : Nat → List Glyph → List LexError
| _, [] => []
| offset, g :: gs =>
    if g.IsLexical then
      invalidSymbols (offset + g.size) gs
    else
      ⟨offset, g.toChar.toNat, .invalidSymbol g.toChar⟩ ::
        invalidSymbols (offset + g.size) gs

theorem invalidSymbols_append
    (offset : Nat)
    (gs hs : List Glyph) :
    invalidSymbols offset (gs ++ hs) =
      invalidSymbols offset gs ++
        invalidSymbols (offset + width gs) hs := by
  induction gs generalizing offset with
  | nil => rfl
  | cons g gs ih =>
      rw [List.cons_append, invalidSymbols, invalidSymbols,
        ih, width, Nat.add_assoc]
      split
      · rfl
      · rfl

theorem invalidSymbols_of_isLexical
    {gs : List Glyph}
    (hLexical : ∀ g ∈ gs, g.IsLexical)
    (offset : Nat) :
    invalidSymbols offset gs = [] := by
  induction gs generalizing offset with
  | nil => rfl
  | cons g gs ih =>
      rw [List.forall_mem_cons] at hLexical
      rw [invalidSymbols, if_pos hLexical.1]
      exact ih hLexical.2 _

theorem seam_of_append
    {as bs cs : List Glyph}
    (hSeam : Seam (as ++ bs) cs) :
    Seam bs cs := by
  intro g hLast
  apply hSeam g
  rw [List.getLast?_append, hLast]
  rfl

end Glyph

------------------------------------------------------------
-- Where a Scan Stops
------------------------------------------------------------

/- Reading that stops has passed over some digits. -/
theorem Numeral.exists_append_of_read_eq_overflow
    {policy : OverflowPolicy}
    {v : UInt32}
    {digits unread : List Char}
    (hRead : read policy v digits = .overflow unread) :
    ∃ passed, digits = passed ++ unread := by
  induction digits generalizing v with
  | nil => cases hRead
  | cons c digits ih =>
      rw [read_cons] at hRead
      split at hRead
      · cases hRead
        exact ⟨[c], rfl⟩
      · rcases ih hRead with ⟨passed, rfl⟩
        exact ⟨c :: passed, rfl⟩

namespace Lexeme

open Glyph

theorem exists_of_ofGlyphs_eq_cons
    {gs : List Glyph}
    {l : Lexeme}
    {ls : List Lexeme}
    (hLexemes : ofGlyphs gs = l :: ls) :
    ∃ after,
      gs = l.glyphs ++ after ∧ l.IsProper ∧
        Seam l.glyphs after ∧ ofGlyphs after = ls := by
  rcases ofGlyphs_eq_append_cons_iff.mp
      (hLexemes.trans (List.nil_append _).symm) with
    ⟨before, after, hGlyphs, hProper, _, hSeam, hNil, hRest⟩
  cases before with
  | nil => exact ⟨after, hGlyphs, hProper, hSeam, hRest⟩
  | cons g before => exact absurd hNil ofGlyphs_ne_nil

/- Digits left over are the lexeme of these digits. -/
theorem ofGlyphs_unread
    {unread : List Char}
    {gs : List Glyph}
    (hDigits : ∀ c ∈ unread, c.isDigit = true)
    (hSeam : Seam (unread.map .char) gs) :
    ofGlyphs (unread.map .char ++ gs) =
      ofUnread unread (ofGlyphs gs) := by
  rw [ofGlyphs_append hSeam]
  cases unread with
  | nil => rfl
  | cons first more =>
      rw [ofGlyphs_digits hDigits]
      rfl

end Lexeme

/-
  A scan that began at the given offset has passed over some
  glyphs and left the others. It does not leave any without
  an error, and unless numbers are checked it passes over no
  invalid symbol but the one that stopped it.
-/
structure Scan.Cuts
    (policy : OverflowPolicy)
    (offset : Nat)
    (before after : List Glyph)
    (s : Scan) :
    Prop where
  place : s.offset = offset + Glyph.width before
  left : s.rest = Lexeme.ofGlyphs after
  ended : s.error = none → after = []
  invalid :
    policy = .wrap →
      Glyph.invalidSymbols offset before = s.error.toList

section Scanning

variable {policy : OverflowPolicy} {offset : Nat}
variable {l : Lexeme} {ls : List Lexeme}
variable {before after : List Glyph}

theorem scan_cons_of_token?
    {t : Option PlacedToken}
    (hToken : l.token? policy offset = .ok t) :
    scan policy offset (l :: ls) =
      let s := scan policy (offset + l.size) ls
      { s with tokens := t.toList ++ s.tokens } := by
  revert hToken
  cases l with
  | digits first more =>
      rw [scan, Lexeme.token?]
      cases Numeral.read policy 0 (first :: more) with
      | overflow unread =>
          intro hToken
          cases hToken
      | value v =>
          intro hToken
          cases hToken
          rfl
  | glyph g =>
      rw [scan, Lexeme.token?]
      cases g.isSpace with
      | true =>
          intro hToken
          cases hToken
          rfl
      | false =>
          cases TokenKind.ofSymbol? g.toChar with
          | none =>
              intro hToken
              cases hToken
          | some kind =>
              intro hToken
              cases hToken
              rfl

theorem scan_glyph_of_token?_eq_error
    {g : Glyph}
    {e : LexError}
    (hToken :
      Lexeme.token? policy offset (.glyph g) = .error e) :
    scan policy offset (.glyph g :: ls) =
      .stop e (offset + g.size) ls := by
  revert hToken
  rw [scan, Lexeme.token?]
  cases g.isSpace with
  | true =>
      intro hToken
      cases hToken
  | false =>
      cases TokenKind.ofSymbol? g.toChar with
      | some kind =>
          intro hToken
          cases hToken
      | none =>
          intro hToken
          cases hToken
          rfl

theorem scan_digits_of_token?_eq_error
    {first : Char}
    {more : List Char}
    {e : LexError}
    (hToken :
      Lexeme.token? policy offset (.digits first more) =
        .error e) :
    ∃ unread,
      Numeral.read policy 0 (first :: more) =
          .overflow unread ∧
        scan policy offset (.digits first more :: ls) =
          .stop e
            (offset + ((first :: more).length -
              unread.length))
            (Lexeme.ofUnread unread ls) := by
  revert hToken
  rw [scan, Lexeme.token?]
  cases Numeral.read policy 0 (first :: more) with
  | value v =>
      intro hToken
      cases hToken
  | overflow unread =>
      intro hToken
      cases hToken
      exact ⟨unread, rfl, rfl⟩

/- A lexeme that is no error is passed over. -/
theorem Scan.Cuts.behind
    {s : Scan}
    (hCuts : s.Cuts policy (offset + l.size) before after)
    (hProper : l.IsProper)
    {t : Option PlacedToken}
    (hToken : l.token? policy offset = .ok t)
    (ts : List PlacedToken) :
    Cuts policy offset (l.glyphs ++ before) after
      { s with tokens := ts } := by
  have hSize := Lexeme.width_glyphs_of_isProper hProper
  refine ⟨?_, hCuts.left, hCuts.ended, ?_⟩
  · rw [Glyph.width_append, hSize, ← Nat.add_assoc]
    exact hCuts.place
  · intro hWrap
    rw [Glyph.invalidSymbols_append, hSize,
      Glyph.invalidSymbols_of_isLexical
        (fun g => Lexeme.isLexical_of_token? hProper hToken)]
    exact hCuts.invalid hWrap

/- A lexeme that is an error stops a scan. -/
theorem exists_cuts_of_token?_eq_error
    {e : LexError}
    {gs : List Glyph}
    (hProper : l.IsProper)
    (hSeam : Glyph.Seam l.glyphs gs)
    (hToken : l.token? policy offset = .error e) :
    ∃ before after,
      l.glyphs ++ gs = before ++ after ∧
        (scan policy offset
          (l :: Lexeme.ofGlyphs gs)).Cuts policy offset
            before after := by
  cases l with
  | glyph g =>
      rcases (Lexeme.token?_glyph_eq_error_iff hProper).mp
          hToken with
        ⟨hInvalid, rfl⟩
      rw [scan_glyph_of_token?_eq_error hToken]
      refine ⟨[g], gs, rfl, rfl, rfl, ?_, ?_⟩
      · intro hNone
        cases hNone
      · intro _
        rw [Glyph.invalidSymbols, if_neg hInvalid]
        rfl
  | digits first more =>
      rcases scan_digits_of_token?_eq_error hToken with
        ⟨unread, hRead, hScan⟩
      rcases Numeral.exists_append_of_read_eq_overflow
          hRead with
        ⟨passed, hDigits⟩
      rw [hScan, Lexeme.glyphs, hDigits, List.map_append]
      rw [Lexeme.glyphs, hDigits, List.map_append] at hSeam
      rw [Lexeme.IsProper, hDigits, List.forall_mem_append]
        at hProper
      refine ⟨passed.map .char, unread.map .char ++ gs,
        List.append_assoc _ _ _, ?_, ?_, ?_, ?_⟩
      · rw [Glyph.width_map_char_of_isDigit hProper.1,
          List.length_append, Nat.add_sub_cancel]
        rfl
      · exact (Lexeme.ofGlyphs_unread hProper.2
          (Glyph.seam_of_append hSeam)).symm
      · intro hNone
        cases hNone
      · rintro rfl
        have hPolicy : OverflowPolicy.wrap ≠ .check := by
          decide
        rcases Numeral.exists_read_eq_value hPolicy 0
            (first :: more) with
          ⟨v, hValue⟩
        rw [hValue] at hRead
        cases hRead

/- Every scan stops between two glyphs. -/
theorem exists_cuts_scan
    (policy : OverflowPolicy)
    (offset : Nat)
    (gs : List Glyph) :
    ∃ before after,
      gs = before ++ after ∧
        (scan policy offset (Lexeme.ofGlyphs gs)).Cuts
          policy offset before after := by
  -- Each lexeme takes its own glyphs from the front.
  generalize hLexemes : Lexeme.ofGlyphs gs = ls
  induction ls generalizing offset gs with
  | nil =>
      cases gs with
      | nil =>
          exact ⟨[], [], rfl, rfl, rfl, fun _ => rfl,
            fun _ => rfl⟩
      | cons g gs =>
          exact absurd hLexemes Lexeme.ofGlyphs_ne_nil
  | cons l ls ih =>
      rcases Lexeme.exists_of_ofGlyphs_eq_cons hLexemes with
        ⟨gs, rfl, hProper, hSeam, rfl⟩
      cases hToken : l.token? policy offset with
      | error e =>
          exact exists_cuts_of_token?_eq_error hProper hSeam
            hToken
      | ok t =>
          rcases ih (offset + l.size) gs rfl with
            ⟨before, after, rfl, hCuts⟩
          refine ⟨l.glyphs ++ before, after,
            (List.append_assoc _ _ _).symm, ?_⟩
          rw [scan_cons_of_token? hToken]
          exact hCuts.behind hProper hToken _

end Scanning

------------------------------------------------------------
-- One Run
------------------------------------------------------------

/- The invalid symbols of a line from an offset on. -/
def Text.invalidFrom
    (line : Text)
    (offset : Nat) :
    List LexError :=
  Glyph.invalidSymbols offset
    (Text.glyphs (line.drop offset))

namespace Lexer

/- A lexer is about to read a line from its offset on. -/
structure ReadsFrom
    (policy : OverflowPolicy)
    (line : Text)
    (l : Lexer) :
    Prop where
  policy_eq : l.policy = policy
  within : l.offset ≤ line.length
  rest_eq : l.rest = Text.lexemes (line.drop l.offset)

/-
  What becomes of a lexer that is run: it goes on, and stops
  before the end of the line only at an error. Unless it
  checks numbers, that is the first invalid symbol.
-/
structure Advances
    (policy : OverflowPolicy)
    (line : Text)
    (l l' : Lexer) :
    Prop where
  reads : l'.ReadsFrom policy line
  onward : l.offset ≤ l'.offset
  found :
    ∃ e : Option LexError,
      l'.error = (e <|> l.error) ∧
        (e = none → l'.offset = line.length) ∧
        (policy = .wrap →
          line.invalidFrom l.offset =
            e.toList ++ line.invalidFrom l'.offset)

section Runs

variable {policy : OverflowPolicy} {line : Text}
variable {l : Lexer}

theorem ReadsFrom.advances
    (hReads : l.ReadsFrom policy line) :
    Advances policy line l l.advance := by
  rcases hReads with ⟨rfl, hWithin, hRest⟩
  rcases exists_cuts_scan l.policy l.offset
      (Text.glyphs (line.drop l.offset)) with
    ⟨before, after, hGlyphs, hCuts⟩
  rw [Text.lexemes] at hRest
  rw [← hRest] at hCuts
  have hPlace :
      l.advance.offset = l.offset + Glyph.width before :=
    hCuts.place
  have hBehind :
      after =
        Text.glyphs (line.drop l.advance.offset) := by
    have hDecodes :=
      Text.decodes_iff.mpr hGlyphs.symm
    rw [hPlace, ← List.drop_drop]
    exact Text.decodes_iff.mp hDecodes.drop
  have hLength :
      Glyph.width before + Glyph.width after =
        line.length - l.offset := by
    rw [← Glyph.width_append, ← hGlyphs, Text.width_glyphs,
      List.length_drop]
  refine ⟨⟨rfl, by omega, ?_⟩, by omega, _, rfl, ?_, ?_⟩
  · rw [Text.lexemes, ← hBehind]
    exact hCuts.left
  · intro hNone
    have hEnd : Glyph.width after = 0 := by
      rw [hCuts.ended hNone]
      rfl
    omega
  · intro hWrap
    rw [Text.invalidFrom, hGlyphs,
      Glyph.invalidSymbols_append, hCuts.invalid hWrap,
      ← hPlace, hBehind]
    rfl

/- A run finds what is found in the rest of the line. -/
theorem ReadsFrom.result_advance
    (hReads : l.ReadsFrom policy line) :
    l.advance.result =
      match relocateLexed (· + l.offset)
        (lex policy (line.drop l.offset)) with
      | .error e => .error e
      | .ok ts => l.result.map (· ++ ts) := by
  rcases hReads with ⟨rfl, _, hRest⟩
  rw [Lexeme.lex_eq_tokens, ← hRest, ← Lexeme.tokens_add,
    Nat.zero_add, Lexeme.tokens_eq_scan]
  simp only [advance, result]
  cases (scan l.policy l.offset l.rest).error with
  | some e => rfl
  | none =>
      cases l.error with
      | some e => rfl
      | none => rfl

/- An error stays until there is another. -/
theorem Advances.result_eq_error
    {l' : Lexer}
    {e : LexError}
    (hAdvances : Advances policy line l l')
    (hResult : l.result = .error e) :
    ∃ e', l'.result = .error e' := by
  rcases hAdvances.found with ⟨e', hError, _, _⟩
  have hBefore : l.error = some e := by
    cases hOld : l.error with
    | none =>
        rw [result, hOld] at hResult
        cases hResult
    | some e' =>
        rw [result, hOld] at hResult
        cases hResult
        rfl
  rw [hBefore] at hError
  rw [result, hError]
  cases e' with
  | none => exact ⟨e, rfl⟩
  | some e' => exact ⟨e', rfl⟩

------------------------------------------------------------
-- Many Runs
------------------------------------------------------------

/- A lexer after some runs. -/
def after
    (l : Lexer) :
    Nat → Lexer
| 0 => l
| runs + 1 => (l.after runs).run.2

/- The offset to which so many runs have come. -/
def placeAfter
    (policy : OverflowPolicy)
    (line : Text)
    (runs : Nat) :
    Nat :=
  ((ofLine policy line).after runs).offset

/- What the next run finds after so many others. -/
def runAfter
    (policy : OverflowPolicy)
    (line : Text)
    (runs : Nat) :
    Except LexError (List PlacedToken) :=
  ((ofLine policy line).after runs).run.1

theorem runAfter_eq_result
    (policy : OverflowPolicy)
    (line : Text)
    (runs : Nat) :
    runAfter policy line runs =
      ((ofLine policy line).after (runs + 1)).result :=
  rfl

theorem readsFrom_after
    (policy : OverflowPolicy)
    (line : Text)
    (runs : Nat) :
    ((ofLine policy line).after runs).ReadsFrom
      policy line := by
  induction runs with
  | zero => exact ⟨rfl, Nat.zero_le _, rfl⟩
  | succ runs ih => exact ih.advances.reads

theorem advances_after
    (policy : OverflowPolicy)
    (line : Text)
    (runs : Nat) :
    Advances policy line ((ofLine policy line).after runs)
      ((ofLine policy line).after (runs + 1)) :=
  (readsFrom_after policy line runs).advances

theorem runAfter_of_error
    {runs : Nat}
    {e : LexError}
    (hLex :
      lex policy
        (line.drop (placeAfter policy line runs)) =
          .error e) :
    runAfter policy line runs =
      .error (e.relocate
        (· + placeAfter policy line runs)) := by
  have hResult :=
    (readsFrom_after policy line runs).result_advance
  rw [placeAfter] at hLex
  rw [hLex] at hResult
  exact hResult

/- Without another error, nothing more is to be found. -/
theorem runAfter_succ_of_ok
    {runs : Nat}
    {ts : List PlacedToken}
    (hLex :
      lex policy
        (line.drop (placeAfter policy line (runs + 1))) =
          .ok ts) :
    runAfter policy line (runs + 1) =
      runAfter policy line runs := by
  have hResult :=
    (readsFrom_after policy line (runs + 1)).result_advance
  rw [placeAfter] at hLex
  rw [hLex] at hResult
  refine hResult.trans ?_
  rw [runAfter_eq_result]
  rcases (advances_after policy line runs).found with
    ⟨e, hError, hEnd, _⟩
  cases e with
  | some e =>
      rw [result, hError]
      rfl
  | none =>
      -- The line was read to its end before.
      rw [hEnd rfl, List.drop_length] at hLex
      cases hLex
      cases ((ofLine policy line).after (runs + 1)).result with
      | error e => rfl
      | ok us => exact congrArg Except.ok (List.append_nil us)

theorem placeAfter_mono
    {runs more : Nat}
    (hLe : runs ≤ more) :
    placeAfter policy line runs ≤
      placeAfter policy line more := by
  induction hLe with
  | refl => exact Nat.le_refl _
  | step _ ih =>
      exact Nat.le_trans ih
        (advances_after policy line _).onward

theorem exists_runAfter_eq_error
    {runs more : Nat}
    {e : LexError}
    (hRun : runAfter policy line runs = .error e)
    (hLe : runs ≤ more) :
    ∃ e', runAfter policy line more = .error e' := by
  induction hLe with
  | refl => exact ⟨e, hRun⟩
  | step _ ih =>
      rcases ih with ⟨e', hBefore⟩
      exact (advances_after policy line _).result_eq_error
        hBefore

end Runs

/-
  Every run that does not check numbers comes to one more of
  the invalid symbols, and the last of them is the error.
-/
theorem error_after
    (line : Text)
    (runs : Nat) :
    line.invalidFrom (placeAfter .wrap line runs) =
        (line.invalidFrom 0).drop runs ∧
      ((ofLine .wrap line).after runs).error =
        ((line.invalidFrom 0).take runs).getLast? := by
  induction runs with
  | zero => exact ⟨rfl, rfl⟩
  | succ runs ih =>
      rcases ih with ⟨hLeft, hError⟩
      rcases (advances_after .wrap line runs).found with
        ⟨e, hNext, hEnd, hInvalid⟩
      have hAhead :
          e = none →
            line.invalidFrom
              (placeAfter .wrap line (runs + 1)) = [] := by
        intro hNone
        rw [placeAfter, hEnd hNone, Text.invalidFrom,
          List.drop_length]
        rfl
      have hSplit :
          (line.invalidFrom 0).drop runs =
            e.toList ++ line.invalidFrom
              (placeAfter .wrap line (runs + 1)) :=
        hLeft.symm.trans (hInvalid rfl)
      have hCut :
          (line.invalidFrom 0)[runs]? = e ∧
            line.invalidFrom
                (placeAfter .wrap line (runs + 1)) =
              (line.invalidFrom 0).drop (runs + 1) := by
        rw [← List.head?_drop, ← List.tail_drop, hSplit]
        cases e with
        | none =>
            rw [hAhead rfl]
            exact ⟨rfl, rfl⟩
        | some e => exact ⟨rfl, rfl⟩
      refine ⟨hCut.2, ?_⟩
      rw [hNext, hError, List.take_add_one, hCut.1,
        List.getLast?_append]
      cases e with
      | none => rfl
      | some e => rfl

section Wrapping

variable {line : Text}

theorem runAfter_wrap_of_invalid
    {runs : Nat}
    {e : LexError}
    (hInvalid :
      (line.invalidFrom 0)[runs]?.or
        (line.invalidFrom 0).getLast? = some e) :
    runAfter .wrap line runs = .error e := by
  have hError := (error_after line (runs + 1)).2
  rw [List.getLast?_take, if_neg (Nat.succ_ne_zero runs),
    Nat.add_sub_cancel, hInvalid] at hError
  rw [runAfter_eq_result, result, hError]

theorem exists_runAfter_wrap_eq_ok
    (hValid : line.invalidFrom 0 = [])
    (runs : Nat) :
    ∃ ts, runAfter .wrap line runs = .ok ts := by
  have hError := (error_after line (runs + 1)).2
  rw [hValid, List.take_nil, List.getLast?_nil] at hError
  refine ⟨((ofLine .wrap line).after (runs + 1)).tokens, ?_⟩
  rw [runAfter_eq_result, result, hError]

/- Without invalid symbols all runs find the same tokens. -/
theorem runAfter_wrap_eq_lex
    (hValid : line.invalidFrom 0 = [])
    (runs : Nat) :
    runAfter .wrap line runs = lex .wrap line := by
  induction runs with
  | zero => rfl
  | succ runs ih =>
      rw [← ih]
      cases hLex :
          lex .wrap
            (line.drop (placeAfter .wrap line (runs + 1)))
          with
      | ok ts => exact runAfter_succ_of_ok hLex
      | error e =>
          rcases exists_runAfter_wrap_eq_ok hValid
              (runs + 1) with
            ⟨ts, hRun⟩
          rw [runAfter_of_error hLex] at hRun
          cases hRun

end Wrapping

/-
  Runs of a lexer that go on where the last one stopped. The
  run that follows others finds the error which is found in
  the rest of the line alone, moved to its place, and if
  there is none it finds what the last run did. Once a run
  has failed all others fail, and no run goes back or beyond
  the line. If numbers wrap around, each run reports one
  more of the invalid symbols and at last the last of them,
  and without any all runs find the tokens of the line.
-/
theorem runs_resume
    (policy : OverflowPolicy)
    (line : Text) :
    (∀ runs,
      let place := placeAfter policy line (runs + 1)
      (∀ e, lex policy (line.drop place) = .error e →
        runAfter policy line (runs + 1) =
          .error (e.relocate (· + place))) ∧
        ∀ ts, lex policy (line.drop place) = .ok ts →
          runAfter policy line (runs + 1) =
            runAfter policy line runs) ∧
      (∀ runs more, runs ≤ more →
        (∀ e, runAfter policy line runs = .error e →
          ∃ e', runAfter policy line more = .error e') ∧
          placeAfter policy line runs ≤
            placeAfter policy line more ∧
          placeAfter policy line more ≤ line.length) ∧
      (policy = .wrap →
        let invalid := Glyph.invalidSymbols 0 line.glyphs
        ∀ runs,
          (∀ e, invalid[runs]? = some e →
            runAfter policy line runs = .error e) ∧
            (∀ e, invalid.length ≤ runs →
              invalid.getLast? = some e →
                runAfter policy line runs = .error e) ∧
            (invalid = [] →
              ∃ ts, lex policy line = .ok ts ∧
                runAfter policy line runs = .ok ts)) := by
  refine ⟨?_, ?_, ?_⟩
  · intro runs
    exact ⟨fun e => runAfter_of_error,
      fun ts => runAfter_succ_of_ok⟩
  · intro runs more hLe
    exact ⟨fun e hRun => exists_runAfter_eq_error hRun hLe,
      placeAfter_mono hLe,
      (readsFrom_after policy line more).within⟩
  · rintro rfl invalid runs
    refine ⟨?_, ?_, ?_⟩
    · intro e hAt
      apply runAfter_wrap_of_invalid
      exact Option.or_eq_some_iff.mpr (.inl hAt)
    · intro e hLess hLast
      apply runAfter_wrap_of_invalid
      exact Option.or_eq_some_iff.mpr
        (.inr ⟨List.getElem?_eq_none hLess, hLast⟩)
    · intro hValid
      rcases exists_runAfter_wrap_eq_ok hValid runs with
        ⟨ts, hRun⟩
      exact ⟨ts, (runAfter_wrap_eq_lex hValid runs).symm.trans
        hRun, hRun⟩

/-
  Behind the digits of a number that is too wide, the next
  run finds the other digits. If numbers wrap around, the
  runs come to one stray symbol after the other.
-/
theorem runs_resume_within_number :
    let wide := Text.ofString "42949672969876543210?"
    let rest : LexError :=
      ⟨0, '9'.toNat, .overflow "9876543210".toList⟩
    let stray := Text.ofString "1$2#"
    let last : LexError :=
      ⟨3, '#'.toNat, .invalidSymbol '#'⟩
    placeAfter .check wide 1 = 10 ∧
      lex .check (wide.drop 10) = .error rest ∧
      runAfter .check wide 1 =
        .error (rest.relocate (· + (10 : Nat))) ∧
      (Glyph.invalidSymbols 0 stray.glyphs)[1]? =
        some last ∧
      runAfter .wrap stray 1 = .error last ∧
      runAfter .wrap stray 2 = .error last := by
  intro wide rest stray last
  have hPlace : placeAfter .check wide 1 = 10 := by
    decide +kernel
  have hLex : lex .check (wide.drop 10) = .error rest := by
    decide +kernel
  have hRun :
      runAfter .check wide 1 =
        .error (rest.relocate (· + (10 : Nat))) := by
    rw [← hPlace] at hLex ⊢
    exact ((runs_resume .check wide).1 0).1 rest hLex
  have hSecond :
      (Glyph.invalidSymbols 0 stray.glyphs)[1]? =
        some last := by
    decide +kernel
  have hWrap := (runs_resume .wrap stray).2.2 rfl
  refine ⟨hPlace, hLex, hRun, hSecond,
    (hWrap 1).1 last hSecond, ?_⟩
  apply (hWrap 2).2.1 last
  · decide +kernel
  · decide +kernel

end Lexer

end ExprCompiler
