import ExprCompiler.Text.Basic

/-
  This file cuts text into glyphs. A glyph is either one
  character with a valid UTF-8 encoding or one stray byte
  that begins no such encoding.

  Key definitions include:
    * `Glyph`
    * `Glyph.leading`
    * `Text.glyphs`

  A stray byte stands for the replacement character, and the
  byte after it is tried anew, so no byte is ever lost.
-/

------------------------------------------------------------
-- Glyphs
------------------------------------------------------------

namespace ExprCompiler

/- One step of reading text. -/
inductive Glyph where
  | char (c : Char)
  | stray (b : UInt8)
deriving DecidableEq, Repr

namespace Glyph

/- The character that a glyph stands for. -/
def toChar : Glyph → Char
| .char c => c
| .stray _ => '\uFFFD'

/- The bytes that a glyph was read from. -/
def bytes : Glyph → Text
| .char c => String.utf8EncodeChar c
| .stray b => [b]

/- The number of bytes that a glyph was read from. -/
def size : Glyph → Nat
| .char c => c.utf8Size
| .stray _ => 1

/- A glyph has as many bytes as its size says. -/
theorem length_bytes
    (g : Glyph) :
    g.bytes.length = g.size := by
  cases g with
  | char c => exact String.length_utf8EncodeChar c
  | stray b => rfl

/- Every glyph takes at least one byte. -/
theorem size_pos
    (g : Glyph) :
    0 < g.size := by
  cases g with
  | char c => exact c.utf8Size_pos
  | stray b => exact Nat.one_pos

------------------------------------------------------------
-- Decoding
------------------------------------------------------------

/- A continuation byte carries six bits of a character. -/
def isContinuation
    (b : UInt8) :
    Bool :=
  0x80 ≤ b && b < 0xC0

/-
  The character whose encoding has the given leading bits
  and goes on with `count` continuation bytes. The least
  code point of that length rules out overlong encodings.
-/
def multibyte?
    (count lead least : Nat)
    (rest : Text) :
    Option Char :=
  let tail := rest.take count
  let code := tail.foldl
    (fun n b => n * 64 + (b.toNat - 0x80)) lead
  if tail.length = count ∧ tail.all isContinuation = true ∧
      least ≤ code ∧ code.isValidChar then
    some (Char.ofNat code)
  else
    none

/-
  The character that begins with byte `b`, if the bytes
  after it complete its encoding.
-/
def decode?
    (b : UInt8)
    (rest : Text) :
    Option Char :=
  if b < 0x80 then
    some (Char.ofNat b.toNat)
  else if b < 0xC0 then
    none
  else if b < 0xE0 then
    multibyte? 1 (b.toNat - 0xC0) 0x80 rest
  else if b < 0xF0 then
    multibyte? 2 (b.toNat - 0xE0) 0x800 rest
  else if b < 0xF8 then
    multibyte? 3 (b.toNat - 0xF0) 0x10000 rest
  else
    none

/- The glyph at the head of the text `b :: rest`. -/
def leading
    (b : UInt8)
    (rest : Text) :
    Glyph :=
  match decode? b rest with
  | some c => .char c
  | none => .stray b

end Glyph

namespace Text

/-
  Reads glyphs from a text whose first `skip` bytes belong
  to the glyph read last. The glyphs read so far are kept
  newest first.
-/
def glyphsFrom
    (skip : Nat)
    (seen : List Glyph) :
    Text → List Glyph
| [] => seen.reverse
| b :: rest =>
    match skip with
    | skip + 1 => glyphsFrom skip seen rest
    | 0 =>
        let g := Glyph.leading b rest
        glyphsFrom (g.size - 1) (g :: seen) rest

/- The glyphs of a text in reading order. -/
def glyphs
    (t : Text) :
    List Glyph :=
  glyphsFrom 0 [] t

/- The glyphs read so far come before all others. -/
theorem glyphsFrom_eq_append
    (skip : Nat)
    (seen : List Glyph)
    (t : Text) :
    glyphsFrom skip seen t =
      seen.reverse ++ glyphsFrom skip [] t := by
  induction t generalizing skip seen with
  | nil => simp [glyphsFrom]
  | cons b rest ih =>
      cases skip with
      | succ skip => exact ih skip seen
      | zero =>
          simp only [glyphsFrom]
          rw [ih _ (Glyph.leading b rest :: seen),
            ih _ [Glyph.leading b rest]]
          simp

/- Bytes that belong to the last glyph are passed over. -/
theorem glyphsFrom_eq_drop
    (skip : Nat)
    (seen : List Glyph)
    (t : Text) :
    glyphsFrom skip seen t =
      glyphsFrom 0 seen (t.drop skip) := by
  induction t generalizing skip with
  | nil => simp [glyphsFrom]
  | cons b rest ih =>
      cases skip with
      | zero => rfl
      | succ skip => exact ih skip

/- No glyphs are in an empty text. -/
theorem glyphs_nil :
    glyphs [] = [] :=
  rfl

/- The first glyph is followed by those behind its bytes. -/
theorem glyphs_cons
    (b : UInt8)
    (rest : Text) :
    glyphs (b :: rest) =
      Glyph.leading b rest ::
        glyphs
          (rest.drop ((Glyph.leading b rest).size - 1)) := by
  unfold glyphs
  rw [glyphsFrom, glyphsFrom_eq_append, glyphsFrom_eq_drop]
  rfl

end Text

end ExprCompiler
