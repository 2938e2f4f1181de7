import ExprCompiler.Settings
import ExprCompiler.Token.Basic
import ExprCompiler.Token.Lexeme

/-
  The tokens of a line.

  Key definitions include:
    * `Numeral.extend`
    * `Numeral.read`
    * `Scan`
    * `scan`
    * `Lexer`
    * `Lexer.run`
    * `lex`

  White space only separates tokens. Scanning stops at the
  first lexeme that is no token; a lexer can be run again
  and then goes on behind the character that stopped it, but
  a line that failed once stays a failure.
-/

------------------------------------------------------------
-- Numerals
------------------------------------------------------------

namespace ExprCompiler

/- The result of reading a run of digits. -/
inductive Numeral where
  | value (v : UInt32)
  | overflow (unread : List Char)
deriving DecidableEq, Repr

namespace Numeral

/- The number that a decimal digit stands for. -/
def digitValue
    (c : Char) :
    Nat :=
  c.toNat - '0'.toNat

/- A number with one more digit, in twice the bits. -/
def extend
    (v : UInt32)
    (c : Char) :
    UInt64 :=
  v.toUInt64 * 10 + UInt64.ofNat (digitValue c)

/-
  Folds digits into a 32-bit number. A digit that makes the
  number too wide drops the bits above the 32nd, or stops
  the reading if the policy is to check.
-/
def read
    (policy : OverflowPolicy)
    (v : UInt32) :
    List Char → Numeral
| [] => .value v
| c :: rest =>
    let wide := extend v c
    if policy = .check ∧ 0xFFFFFFFF < wide then
      .overflow rest
    else
      read policy wide.toUInt32 rest

end Numeral

------------------------------------------------------------
-- Scanning
------------------------------------------------------------

/-
  How far a scan came: the tokens before the place where it
  stopped, that place, and what is left to be scanned.
-/
structure Scan where
  tokens : List PlacedToken
  error : Option LexError
  offset : Nat
  rest : List Lexeme
deriving DecidableEq, Repr

namespace Scan

/- Puts a token in front. -/
def prepend
    (t : PlacedToken)
    (s : Scan) :
    Scan :=
  { s with tokens := t :: s.tokens }

/- A scan that stops at once with an error. -/
def stop
    (e : LexError)
    (offset : Nat)
    (rest : List Lexeme) :
    Scan :=
  ⟨[], some e, offset, rest⟩

end Scan

/- The digits left over from a run, as lexemes again. -/
def Lexeme.ofUnread
    (unread : List Char)
    (rest : List Lexeme) :
    List Lexeme :=
  match unread with
  | [] => rest
  | first :: more => .digits first more :: rest

/- Scans lexemes that begin at the given offset. -/
def scan
    (policy : OverflowPolicy)
    (offset : Nat) :
    List Lexeme → Scan
| [] => ⟨[], none, offset, []⟩
| .digits first more :: rest =>
    let digits := first :: more
    match Numeral.read policy 0 digits with
    | .value v =>
        (scan policy (offset + digits.length) rest).prepend
          ⟨offset, Token.ofNumber v⟩
    | .overflow unread =>
        .stop ⟨offset, first.toNat, .overflow digits⟩
          (offset + (digits.length - unread.length))
          (Lexeme.ofUnread unread rest)
| .glyph g :: rest =>
    if g.isSpace then
      scan policy (offset + g.size) rest
    else
      match TokenKind.ofSymbol? g.toChar with
      | some kind =>
          (scan policy (offset + g.size) rest).prepend
            ⟨offset, Token.ofKind kind⟩
      | none =>
          .stop
            ⟨offset, g.toChar.toNat,
              .invalidSymbol g.toChar⟩
            (offset + g.size) rest

------------------------------------------------------------
-- Lexers
------------------------------------------------------------

/- A lexer at some place of a line. -/
structure Lexer where
  policy : OverflowPolicy
  offset : Nat
  rest : List Lexeme
  tokens : List PlacedToken
  error : Option LexError
deriving DecidableEq, Repr

namespace Lexer

/- A lexer at the beginning of a line. -/
def ofLine
    (policy : OverflowPolicy)
    (line : Text) :
    Lexer :=
  ⟨policy, 0, line.lexemes, [], none⟩

/- Scans on until the end of the line or an error. -/
def advance
    (l : Lexer) :
    Lexer :=
  let s := scan l.policy l.offset l.rest
  { l with
    offset := s.offset
    rest := s.rest
    tokens := l.tokens ++ s.tokens
    error := s.error <|> l.error }

/- All tokens so far, unless there ever was an error. -/
def result
    (l : Lexer) :
    Except LexError (List PlacedToken) :=
  match l.error with
  | some e => .error e
  | none => .ok l.tokens

/- Advances a lexer and tells what it has found. -/
def run
    (l : Lexer) :
    Except LexError (List PlacedToken) × Lexer :=
  (l.advance.result, l.advance)

end Lexer

/- The tokens of a whole line. -/
def lex
    (policy : OverflowPolicy)
    (line : Text) :
    Except LexError (List PlacedToken) :=
  (Lexer.ofLine policy line).advance.result

end ExprCompiler
