/-
  Tokens, the words of an expression.

  Key definitions include:
    * `TokenKind`
    * `Token`
    * `PlacedToken`

  A kind has a numeric code. Codes from seven on belong to
  no known kind; they are kept, so that a list of tokens
  with any codes can be read and reported on.
-/

------------------------------------------------------------
-- Kinds of Tokens
------------------------------------------------------------

namespace ExprCompiler

/- What kind of word a token is. -/
inductive TokenKind where
  | number
  | plus
  | minus
  | asterisk
  | slash
  | openParen
  | closeParen
  | unknown (code : UInt64) (h : 7 ≤ code)
deriving DecidableEq, Repr

namespace TokenKind

/- The kind that a code stands for. -/
def ofCode
    (code : UInt64) :
    TokenKind :=
  if h : 7 ≤ code then
    .unknown code h
  else
    match code.toNat with
    | 0 => .number
    | 1 => .plus
    | 2 => .minus
    | 3 => .asterisk
    | 4 => .slash
    | 5 => .openParen
    | _ => .closeParen

/-
  The name of a kind. An unknown code is shown as a signed
  number.
-/
def name : TokenKind → String
| .number => "Number"
| .plus => "Plus"
| .minus => "Minus"
| .asterisk => "Asterisk"
| .slash => "Slash"
| .openParen => "OpenParentheses"
| .closeParen => "CloseParentheses"
| .unknown code _ =>
    "TokenType(" ++ toString code.toInt64.toInt ++ ")"

/- The character that a kind of token is written with. -/
def symbol? : TokenKind → Option Char
| .plus => some '+'
| .minus => some '-'
| .asterisk => some '*'
| .slash => some '/'
| .openParen => some '('
| .closeParen => some ')'
| .number => none
| .unknown _ _ => none

/- The kind of token that a character alone makes. -/
def ofSymbol? : Char → Option TokenKind
| '+' => some .plus
| '-' => some .minus
| '*' => some .asterisk
| '/' => some .slash
| '(' => some .openParen
| ')' => some .closeParen
| _ => none

/- The kind that a character makes is written with it. -/
theorem symbol?_of_ofSymbol?
    {c : Char}
    {kind : TokenKind}
    (h : ofSymbol? c = some kind) :
    kind.symbol? = some c := by
  unfold ofSymbol? at h
  split at h
  all_goals simp at h
  all_goals subst h
  all_goals rfl

/- A kind with a symbol is the kind which the symbol makes. -/
theorem ofSymbol?_of_symbol?
    {c : Char}
    {kind : TokenKind}
    (h : kind.symbol? = some c) :
    ofSymbol? c = some kind := by
  cases kind
  all_goals simp [symbol?] at h
  all_goals subst h
  all_goals rfl

end TokenKind

------------------------------------------------------------
-- Tokens
------------------------------------------------------------

/- A token; only a number's value carries meaning. -/
structure Token where
  kind : TokenKind
  value : UInt32
deriving DecidableEq, Repr

namespace Token

/- The token of a number. -/
def ofNumber
    (value : UInt32) :
    Token :=
  ⟨.number, value⟩

/- A token of a kind that needs no value. -/
def ofKind
    (kind : TokenKind) :
    Token :=
  ⟨kind, 0⟩

/- The text that a token is written as. -/
def text
    (t : Token) :
    String :=
  match t.kind with
  | .number => toString t.value.toNat
  | kind =>
      match kind.symbol? with
      | some c => String.singleton c
      | none => kind.name

end Token

/- A token together with the offset at which it begins. -/
structure PlacedToken where
  offset : Int
  token : Token
deriving DecidableEq, Repr

end ExprCompiler
