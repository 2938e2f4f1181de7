import ExprCompiler.Proofs.Decoding
import ExprCompiler.Token.Lexeme

/-
  How glyphs are grouped into lexemes.

  Key definitions include:
    * `Glyph.Seam`
    * `Lexeme.glyphs`
    * `Lexeme.IsProper`
    * `Lexeme.span`

  Main declarations:
    * `Lexeme.flatMap_glyphs_ofGlyphs`
    * `Lexeme.isProper_of_mem_ofGlyphs`
    * `Lexeme.ofGlyphs_append`
    * `Lexeme.exists_append_of_ofGlyphs_eq_append`
    * `Lexeme.ofGlyphs_eq_append_cons_iff`

  Grouping keeps every glyph in its place. Lists of glyphs
  can be grouped one after the other if and only if no run
  of digits goes on from one list to the next.
-/

------------------------------------------------------------
-- Digits
------------------------------------------------------------

namespace ExprCompiler

namespace Glyph

/- Whether a glyph is an ASCII digit. -/
def isDigit
    (g : Glyph) :
    Bool :=
  g.toChar.isDigit

theorem digit?_eq_some_iff
    {g : Glyph}
    {c : Char} :
    g.digit? = some c ↔ g = .char c ∧ c.isDigit = true := by
  cases g with
  | char c' =>
      simp only [digit?, Option.ite_none_right_eq_some,
        Option.some.injEq, Glyph.char.injEq]
      constructor
      · rintro ⟨hDigit, rfl⟩
        exact ⟨rfl, hDigit⟩
      · rintro ⟨rfl, hDigit⟩
        exact ⟨hDigit, rfl⟩
  | stray b => simp [digit?]

theorem digit?_eq_none_iff
    {g : Glyph} :
    g.digit? = none ↔ g.isDigit = false := by
  cases g with
  | char c => simp [digit?, isDigit, toChar]
  | stray b => simp [digit?, isDigit, toChar]

theorem size_char_of_isDigit
    {c : Char}
    (hDigit : c.isDigit = true) :
    (Glyph.char c).size = 1 := by
  rw [size, Char.utf8Size_eq_one_iff]
  simp [Char.isDigit, UInt32.le_iff_toNat_le] at hDigit ⊢
  omega

theorem width_map_char_of_isDigit
    {cs : List Char}
    (hDigits : ∀ c ∈ cs, c.isDigit = true) :
    width (cs.map .char) = cs.length := by
  induction cs with
  | nil => rfl
  | cons c cs ih =>
      rw [List.forall_mem_cons] at hDigits
      rw [List.map_cons, width,
        size_char_of_isDigit hDigits.1, ih hDigits.2,
        List.length_cons, Nat.add_comm]

------------------------------------------------------------
-- Seams
------------------------------------------------------------

/- No run of digits goes on from one list to the next. -/
def Seam
    (gs hs : List Glyph) :
    Prop :=
  ∀ g ∈ gs.getLast?, ∀ h ∈ hs.head?,
    ¬ (g.isDigit = true ∧ h.isDigit = true)

theorem seam_nil
    (hs : List Glyph) :
    Seam [] hs := by
  simp [Seam]

theorem seam_nil_right
    (gs : List Glyph) :
    Seam gs [] := by
  simp [Seam]

theorem seam_singleton_of_isDigit_eq_false
    {g : Glyph}
    (hDigit : g.isDigit = false)
    (hs : List Glyph) :
    Seam [g] hs := by
  simp [Seam, hDigit]

theorem seam_cons_of_isDigit_eq_false
    {g : Glyph}
    (hDigit : g.isDigit = false)
    (gs hs : List Glyph) :
    Seam gs (g :: hs) := by
  simp [Seam, hDigit]

theorem seam_cons_cons_iff
    {g g' : Glyph}
    {gs hs : List Glyph} :
    Seam (g :: g' :: gs) hs ↔ Seam (g' :: gs) hs := by
  simp [Seam]

end Glyph

------------------------------------------------------------
-- Glyphs of Lexemes
------------------------------------------------------------

namespace Lexeme

open Glyph

/- The glyphs that a lexeme is made of. -/
def glyphs : Lexeme → List Glyph
| .digits first more => (first :: more).map .char
| .glyph g => [g]

/- Only digits are in runs, and no digit is outside them. -/
def IsProper : Lexeme → Prop
| .digits first more => ∀ c ∈ first :: more, c.isDigit = true
| .glyph g => g.isDigit = false

/- The number of bytes of lexemes. -/
def span : List Lexeme → Nat
| [] => 0
| l :: ls => l.size + span ls

theorem size_pos
    (l : Lexeme) :
    0 < l.size := by
  cases l with
  | digits first more => exact Nat.succ_pos more.length
  | glyph g => exact g.size_pos

/- Every byte of lexemes belongs to one of them. -/
theorem exists_split_of_lt_span
    {ls : List Lexeme}
    {i : Nat}
    (hLess : i < span ls) :
    ∃ before l after,
      ls = before ++ l :: after ∧ span before ≤ i ∧
        i < span before + l.size := by
  induction ls generalizing i with
  | nil => cases hLess
  | cons l ls ih =>
      rw [span] at hLess
      by_cases hFirst : i < l.size
      · refine ⟨[], l, ls, rfl, Nat.zero_le i, ?_⟩
        rwa [span, Nat.zero_add]
      · have hRest : i - l.size < span ls := by
          omega
        rcases ih hRest with
          ⟨before, l', after, rfl, hLeast, hLast⟩
        refine ⟨l :: before, l', after, rfl, ?_, ?_⟩
        · rw [span]
          omega
        · rw [span]
          omega

/- A glyph stays alone, joins a run or begins one. -/
theorem cons_cases
    (g : Glyph)
    (ls : List Lexeme) :
    (g.isDigit = false ∧ cons g ls = .glyph g :: ls) ∨
      (∃ c first more rest,
        g = .char c ∧ c.isDigit = true ∧
          ls = .digits first more :: rest ∧
          cons g ls = .digits c (first :: more) :: rest) ∨
      (∃ c,
        g = .char c ∧ c.isDigit = true ∧
          (∀ first more rest,
            ls ≠ .digits first more :: rest) ∧
          cons g ls = .digits c [] :: ls) := by
  cases hDigit : g.digit? with
  | none =>
      exact .inl ⟨digit?_eq_none_iff.mp hDigit,
        by simp [cons, hDigit]⟩
  | some c =>
      rcases digit?_eq_some_iff.mp hDigit with ⟨rfl, hChar⟩
      right
      match ls with
      | .digits first more :: rest =>
          exact .inl ⟨c, first, more, rest, rfl, hChar, rfl,
            by simp [cons, hDigit]⟩
      | [] =>
          exact .inr ⟨c, rfl, hChar, by simp,
            by simp [cons, hDigit]⟩
      | .glyph g :: rest =>
          exact .inr ⟨c, rfl, hChar, by simp,
            by simp [cons, hDigit]⟩

theorem ofGlyphs_cons
    (g : Glyph)
    (gs : List Glyph) :
    ofGlyphs (g :: gs) = cons g (ofGlyphs gs) :=
  rfl

/- Grouping loses no glyph. -/
theorem flatMap_glyphs_ofGlyphs
    (gs : List Glyph) :
    (ofGlyphs gs).flatMap glyphs = gs := by
  induction gs with
  | nil => rfl
  | cons g gs ih =>
      rw [ofGlyphs_cons]
      rcases cons_cases g (ofGlyphs gs) with
        ⟨_, hCons⟩ |
          ⟨c, first, more, rest, rfl, _, hRest, hCons⟩ |
          ⟨c, rfl, _, _, hCons⟩
      · rw [hCons, List.flatMap_cons, ih]
        rfl
      · rw [hRest] at ih
        rw [hCons, ← ih]
        rfl
      · rw [hCons, List.flatMap_cons, ih]
        rfl

theorem ofGlyphs_ne_nil
    {g : Glyph}
    {gs : List Glyph} :
    ofGlyphs (g :: gs) ≠ [] := by
  intro hNil
  have hGlyphs := flatMap_glyphs_ofGlyphs (g :: gs)
  rw [hNil] at hGlyphs
  cases hGlyphs

theorem isProper_of_mem_ofGlyphs
    {gs : List Glyph}
    {l : Lexeme}
    (hMem : l ∈ ofGlyphs gs) :
    l.IsProper := by
  induction gs generalizing l with
  | nil => cases hMem
  | cons g gs ih =>
      rw [ofGlyphs_cons] at hMem
      rcases cons_cases g (ofGlyphs gs) with
        ⟨hOther, hCons⟩ |
          ⟨c, first, more, rest, rfl, hDigit, hRest,
            hCons⟩ |
          ⟨c, rfl, hDigit, _, hCons⟩
      · rw [hCons, List.mem_cons] at hMem
        rcases hMem with rfl | hMem
        · exact hOther
        · exact ih hMem
      · rw [hRest] at ih
        rw [hCons, List.mem_cons] at hMem
        rcases hMem with rfl | hMem
        · have hRun : IsProper (.digits first more) :=
            ih List.mem_cons_self
          exact List.forall_mem_cons.mpr ⟨hDigit, hRun⟩
        · exact ih (List.mem_cons_of_mem _ hMem)
      · rw [hCons, List.mem_cons] at hMem
        rcases hMem with rfl | hMem
        · simpa [IsProper] using hDigit
        · exact ih hMem

theorem width_glyphs_of_isProper
    {l : Lexeme}
    (hProper : l.IsProper) :
    width l.glyphs = l.size := by
  cases l with
  | digits first more =>
      exact width_map_char_of_isDigit hProper
  | glyph g => exact Nat.add_zero g.size

/- Grouped glyphs take as many bytes as before. -/
theorem span_ofGlyphs
    (gs : List Glyph) :
    span (ofGlyphs gs) = width gs := by
  have hWidth :
      ∀ ls : List Lexeme, (∀ l ∈ ls, l.IsProper) →
        width (ls.flatMap glyphs) = span ls := by
    intro ls hProper
    induction ls with
    | nil => rfl
    | cons l ls ih =>
        rw [List.forall_mem_cons] at hProper
        rw [List.flatMap_cons, width_append,
          width_glyphs_of_isProper hProper.1,
          ih hProper.2, span]
  rw [← hWidth _ fun l hMem => isProper_of_mem_ofGlyphs hMem,
    flatMap_glyphs_ofGlyphs]

------------------------------------------------------------
-- Grouping Piece by Piece
------------------------------------------------------------

theorem exists_head_of_ofGlyphs
    {gs : List Glyph}
    {first : Char}
    {more : List Char}
    {rest : List Lexeme}
    (hDigits : ofGlyphs gs = .digits first more :: rest) :
    ∃ gs', gs = .char first :: gs' ∧
      first.isDigit = true := by
  have hGlyphs := flatMap_glyphs_ofGlyphs gs
  have hProper : IsProper (.digits first more) :=
    isProper_of_mem_ofGlyphs
      (hDigits ▸ List.mem_cons_self)
  rw [hDigits] at hGlyphs
  exact ⟨_, hGlyphs.symm, hProper first List.mem_cons_self⟩

/- A glyph joins the run of digits behind it, or nothing. -/
theorem ofGlyphs_cons_cases
    (g : Glyph)
    (gs : List Glyph) :
    (Seam [g] gs ∧
        ofGlyphs (g :: gs) = ofGlyphs [g] ++ ofGlyphs gs) ∨
      (∃ c first more rest,
        g = .char c ∧ c.isDigit = true ∧
          ofGlyphs gs = .digits first more :: rest ∧
          ofGlyphs (g :: gs) =
            .digits c (first :: more) :: rest) := by
  rcases cons_cases g (ofGlyphs gs) with
    ⟨hOther, hCons⟩ | hJoined |
      ⟨c, rfl, hDigit, hAlone, hCons⟩
  · refine .inl
      ⟨seam_singleton_of_isDigit_eq_false hOther gs, ?_⟩
    rw [ofGlyphs_cons, hCons]
    simp [ofGlyphs, cons, digit?_eq_none_iff.mpr hOther]
  · exact .inr hJoined
  · refine .inl ⟨?_, ?_⟩
    · -- A digit behind this one would have begun a run.
      rintro _ - g hHead ⟨-, hNext⟩
      cases gs with
      | nil => cases hHead
      | cons g' gs =>
          cases hHead
          rcases cons_cases g (ofGlyphs gs) with
            ⟨hOther, -⟩ | ⟨_, _, _, _, _, _, _, hRun⟩ |
              ⟨_, _, _, _, hRun⟩
          · rw [hOther] at hNext
            cases hNext
          · exact hAlone _ _ _ hRun
          · exact hAlone _ _ _ hRun
    · rw [ofGlyphs_cons, hCons]
      simp [ofGlyphs, cons,
        digit?_eq_some_iff.mpr ⟨rfl, hDigit⟩]

theorem exists_ofGlyphs_singleton
    (g : Glyph) :
    ∃ l, ofGlyphs [g] = [l] := by
  rcases cons_cases g [] with
    ⟨_, hCons⟩ | ⟨_, _, _, _, _, _, hNil, _⟩ |
      ⟨_, _, _, _, hCons⟩
  · exact ⟨_, hCons⟩
  · cases hNil
  · exact ⟨_, hCons⟩

theorem cons_append
    {ls : List Lexeme}
    (hNonempty : ls ≠ [])
    (g : Glyph)
    (ms : List Lexeme) :
    cons g (ls ++ ms) = cons g ls ++ ms := by
  match ls, hNonempty with
  | .digits first more :: ls, _ =>
      cases hDigit : g.digit? <;> simp [cons, hDigit]
  | .glyph g' :: ls, _ =>
      cases hDigit : g.digit? <;> simp [cons, hDigit]

/- Lists are grouped one after the other at a seam. -/
theorem ofGlyphs_append
    {gs hs : List Glyph}
    (hSeam : Seam gs hs) :
    ofGlyphs (gs ++ hs) = ofGlyphs gs ++ ofGlyphs hs := by
  induction gs with
  | nil => rfl
  | cons g gs ih =>
      cases gs with
      | nil =>
          rcases ofGlyphs_cons_cases g hs with
            ⟨-, hCons⟩ |
              ⟨c, first, more, rest, rfl, hDigit, hRun, _⟩
          · exact hCons
          · rcases exists_head_of_ofGlyphs hRun with
              ⟨hs', rfl, hFirst⟩
            exact absurd ⟨hDigit, hFirst⟩
              (hSeam _ rfl _ rfl)
      | cons g' gs =>
          rw [List.cons_append, ofGlyphs_cons,
            ih (seam_cons_cons_iff.mp hSeam),
            cons_append ofGlyphs_ne_nil, ← ofGlyphs_cons]

/- Lexemes can be taken apart at a seam of glyphs only. -/
theorem exists_append_of_ofGlyphs_eq_append
    {gs : List Glyph}
    {ls ms : List Lexeme}
    (hLexemes : ofGlyphs gs = ls ++ ms) :
    ∃ as bs, gs = as ++ bs ∧ ofGlyphs as = ls ∧
      ofGlyphs bs = ms ∧ Seam as bs := by
  induction gs generalizing ls with
  | nil =>
      rcases List.append_eq_nil_iff.mp hLexemes.symm with
        ⟨rfl, rfl⟩
      exact ⟨[], [], rfl, rfl, rfl, seam_nil []⟩
  | cons g gs ih =>
      cases ls with
      | nil =>
          exact ⟨[], g :: gs, rfl, rfl, hLexemes,
            seam_nil _⟩
      | cons l ls =>
          rcases ofGlyphs_cons_cases g gs with
            ⟨hFirst, hCons⟩ |
              ⟨c, first, more, rest, rfl, hDigit, hRun,
                hCons⟩
          · rcases exists_ofGlyphs_singleton g with
              ⟨l', hAlone⟩
            rw [hCons, hAlone, List.cons_append]
              at hLexemes
            injection hLexemes with hHead hTail
            rcases ih hTail with
              ⟨as, bs, rfl, rfl, rfl, hSeam⟩
            have hFirst' : Seam [g] as := by
              cases as with
              | nil => exact seam_nil_right [g]
              | cons a as => exact hFirst
            refine ⟨g :: as, bs, rfl, ?_, rfl, ?_⟩
            · rw [← List.singleton_append,
                ofGlyphs_append hFirst', hAlone, hHead,
                List.singleton_append]
            · cases as with
              | nil => exact hFirst
              | cons a as =>
                  exact seam_cons_cons_iff.mpr hSeam
          · rw [hCons, List.cons_append] at hLexemes
            injection hLexemes with hHead hTail
            rw [hTail, ← List.cons_append] at hRun
            rcases ih hRun with
              ⟨as, bs, rfl, hRun', rfl, hSeam⟩
            refine ⟨.char c :: as, bs, rfl, ?_, rfl, ?_⟩
            · rw [ofGlyphs_cons, hRun', ← hHead]
              simp [cons,
                digit?_eq_some_iff.mpr ⟨rfl, hDigit⟩]
            · cases as with
              | nil => cases hRun'
              | cons a as =>
                  exact seam_cons_cons_iff.mpr hSeam

/- Digits side by side are one run. -/
theorem ofGlyphs_digits
    {first : Char}
    {more : List Char}
    (hProper : IsProper (.digits first more)) :
    ofGlyphs ((first :: more).map .char) =
      [.digits first more] := by
  induction more generalizing first with
  | nil =>
      have hDigit := hProper first List.mem_cons_self
      simp [ofGlyphs, cons,
        digit?_eq_some_iff.mpr ⟨rfl, hDigit⟩]
  | cons c more ih =>
      rcases List.forall_mem_cons.mp hProper with
        ⟨hDigit, hRun⟩
      rw [List.map_cons, ofGlyphs_cons, ih hRun]
      simp [cons, digit?_eq_some_iff.mpr ⟨rfl, hDigit⟩]

theorem ofGlyphs_glyphs
    {l : Lexeme}
    (hProper : l.IsProper) :
    ofGlyphs l.glyphs = [l] := by
  cases l with
  | digits first more => exact ofGlyphs_digits hProper
  | glyph g =>
      simp [glyphs, ofGlyphs, cons,
        digit?_eq_none_iff.mpr hProper]

theorem seam_glyphs_append_iff
    {l : Lexeme}
    {gs hs : List Glyph} :
    Seam gs (l.glyphs ++ hs) ↔ Seam gs l.glyphs := by
  cases l with
  | digits first more => simp [Seam, glyphs]
  | glyph g => simp [Seam, glyphs]

/-
  A lexeme stands among the lexemes of glyphs if and only if
  its own glyphs stand there with a seam on either side.
-/
theorem ofGlyphs_eq_append_cons_iff
    {gs : List Glyph}
    {l : Lexeme}
    {ls ms : List Lexeme} :
    ofGlyphs gs = ls ++ l :: ms ↔
      ∃ before after,
        gs = before ++ (l.glyphs ++ after) ∧ l.IsProper ∧
          Seam before l.glyphs ∧ Seam l.glyphs after ∧
          ofGlyphs before = ls ∧ ofGlyphs after = ms := by
  constructor
  · intro hLexemes
    have hMem : l ∈ ofGlyphs gs := by
      simp [hLexemes]
    rcases exists_append_of_ofGlyphs_eq_append hLexemes with
      ⟨before, rest, rfl, hBefore, hRest, hFirst⟩
    rw [← List.singleton_append] at hRest
    rcases exists_append_of_ofGlyphs_eq_append hRest with
      ⟨own, after, rfl, hOwn, hAfter, hSecond⟩
    have hGlyphs : own = l.glyphs := by
      rw [← flatMap_glyphs_ofGlyphs own, hOwn,
        List.flatMap_singleton]
    subst hGlyphs
    exact ⟨before, after, rfl,
      isProper_of_mem_ofGlyphs hMem,
      seam_glyphs_append_iff.mp hFirst, hSecond, hBefore,
      hAfter⟩
  · rintro
      ⟨before, after, rfl, hProper, hFirst, hSecond, rfl,
        rfl⟩
    rw [ofGlyphs_append (seam_glyphs_append_iff.mpr hFirst),
      ofGlyphs_append hSecond, ofGlyphs_glyphs hProper,
      List.singleton_append]

end Lexeme

end ExprCompiler
