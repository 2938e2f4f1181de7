import ExprCompiler.Text.Quoted

/-
  The arguments of the command line.

  Key definitions include:
    * `Flag`
    * `Options`
    * `ArgumentError`
    * `Argument.ofText`
    * `Options.parse`

  Flags and expressions may come in any order. A flag has a
  long name and may have a short one; short flags can be put
  together in one argument. The last value of a flag counts.
-/

------------------------------------------------------------
-- Flags
------------------------------------------------------------

namespace ExprCompiler

/- The flags of the command. -/
inductive Flag where
  | help
  | overflow
  | target
  | verbose
deriving DecidableEq, Repr

namespace Flag

/- The flag with the given long name. -/
def ofName?
    (name : Text) :
    Option Flag :=
  if name = Text.ofString "help" then some .help
  else if name = Text.ofString "overflow" then some .overflow
  else if name = Text.ofString "target" then some .target
  else if name = Text.ofString "verbose" then some .verbose
  else none

/- The flag with the given short name. -/
def ofShort?
    (c : UInt8) :
    Option Flag :=
  if c = 0x68 then some .help
  else if c = 0x74 then some .target
  else none

/- A switch is turned on by its name alone. -/
def isSwitch : Flag → Bool
| .help => true
| .verbose => true
| .overflow => false
| .target => false

/- How a flag is shown in messages. -/
def display : Flag → String
| .help => "-h, --help"
| .overflow => "--overflow"
| .target => "-t, --target"
| .verbose => "--verbose"

end Flag

------------------------------------------------------------
-- Errors
------------------------------------------------------------

/- What can be wrong with the arguments. -/
inductive ArgumentError where
  | badSyntax (argument : Text)
  | unknownFlag (name : Text)
  | missingValue (name : Text)
  | unknownShort (c : UInt8) (group : Text)
  | missingShortValue (c : UInt8) (group : Text)
  | invalidValue (value : Text) (flag : Flag)
deriving DecidableEq, Repr

namespace ArgumentError

/-
  The character that a short name is shown as. The name is
  taken for a code point, and the first byte of its encoding
  is taken for a code point again, which makes a difference
  beyond ASCII only.
-/
def shownShort
    (c : UInt8) :
    Char :=
  let encoded := String.utf8EncodeChar (Char.ofNat c.toNat)
  Char.ofNat (encoded.headD c).toNat

/- The wording of a short name in its group. -/
def shortIn
    (c : UInt8)
    (group : Text) :
    Text :=
  Text.ofString (quotedChar (shownShort c) ++ " in -") ++
    group

/- The wording of an error. -/
def message : ArgumentError → Text
| .badSyntax argument =>
    Text.ofString "bad flag syntax: " ++ argument
| .unknownFlag name =>
    Text.ofString "unknown flag: --" ++ name
| .missingValue name =>
    Text.ofString "flag needs an argument: --" ++ name
| .unknownShort c group =>
    Text.ofString "unknown shorthand flag: " ++
      shortIn c group
| .missingShortValue c group =>
    Text.ofString "flag needs an argument: " ++
      shortIn c group
| .invalidValue value flag =>
    Text.ofString
      ("invalid argument " ++ value.quoted ++ " for \"" ++
        flag.display ++ "\" flag: strconv.ParseBool: parsing " ++
        value.quoted ++ ": invalid syntax")

end ArgumentError

------------------------------------------------------------
-- Options
------------------------------------------------------------

/- The values of the flags. -/
structure Options where
  help : Bool := false
  overflow : Text := Text.ofString "wrap"
  target : Text := Text.ofString "asm"
  verbose : Bool := false
deriving DecidableEq, Repr

/- The truth value that a text stands for. -/
def Text.toBool?
    (t : Text) :
    Option Bool :=
  if ["1", "t", "T", "TRUE", "true", "True"].any
      fun s => t = Text.ofString s then
    some true
  else if ["0", "f", "F", "FALSE", "false", "False"].any
      fun s => t = Text.ofString s then
    some false
  else
    none

namespace Options

/- Gives a flag the value that a text stands for. -/
def set
    (o : Options)
    (flag : Flag)
    (value : Text) :
    Except ArgumentError Options :=
  match flag with
  | .overflow => .ok { o with overflow := value }
  | .target => .ok { o with target := value }
  | .help =>
      match value.toBool? with
      | some b => .ok { o with help := b }
      | none => .error (.invalidValue value .help)
  | .verbose =>
      match value.toBool? with
      | some b => .ok { o with verbose := b }
      | none => .error (.invalidValue value .verbose)

/- Turns a switch on. -/
def turnOn
    (o : Options)
    (flag : Flag) :
    Except ArgumentError Options :=
  o.set flag (Text.ofString "true")

/- The value that an equals sign attaches to a short flag. -/
def attached? : Text → Option Text
| 0x3D :: b :: value => some (b :: value)
| _ => none

/- Flags of a test runner, which are none of the command. -/
def isForTests
    (group : Text) :
    Bool :=
  (Text.ofString "test.").isPrefixOf group

/-
  Reads a group of short flags. A flag that takes a value
  takes the rest of the group; if there is none, the value
  is to come from elsewhere, and the flag is returned with
  its name. Flags of a test runner are passed over.
-/
def setGroup
    (o : Options) :
    Text → Except ArgumentError
      (Options × Option (Flag × UInt8))
| [] => .ok (o, none)
| c :: rest =>
    if isForTests (c :: rest) then
      .ok (o, none)
    else
      match Flag.ofShort? c, attached? rest with
      | none, _ => .error (.unknownShort c (c :: rest))
      | some flag, some value => do
          return (← o.set flag value, none)
      | some flag, none =>
          if flag.isSwitch then do
            setGroup (← o.turnOn flag) rest
          else if rest.isEmpty then
            .ok (o, some (flag, c))
          else do
            return (← o.set flag rest, none)

end Options

------------------------------------------------------------
-- Arguments
------------------------------------------------------------

/- What an argument is by its looks. -/
inductive Argument where
  | expression
  | endOfFlags
  | malformed
  | long (name : Text) (value : Option Text)
  | group (flags : Text)
deriving DecidableEq, Repr

namespace Argument

/- A long flag, with its value if it has one. -/
def ofLong
    (t : Text) :
    Argument :=
  let name := t.takeWhile (· ≠ 0x3D)
  match t.dropWhile (· ≠ 0x3D) with
  | [] => .long name none
  | _ :: value => .long name (some value)

/- Tells arguments apart by their dashes. -/
def ofText : Text → Argument
| [0x2D, 0x2D] => .endOfFlags
| 0x2D :: 0x2D :: 0x2D :: _ => .malformed
| 0x2D :: 0x2D :: 0x3D :: _ => .malformed
| 0x2D :: 0x2D :: t => ofLong t
| 0x2D :: c :: t => .group (c :: t)
| _ => .expression

end Argument

namespace Options

/-
  Reads arguments from left to right. The result holds the
  values of the flags and the expressions in their order.
-/
def parse
    (o : Options) :
    List Text → Except ArgumentError (Options × List Text)
| [] => .ok (o, [])
| arg :: rest =>
    match Argument.ofText arg with
    | .endOfFlags => .ok (o, rest)
    | .malformed => .error (.badSyntax arg)
    | .expression => do
        let (o, expressions) ← parse o rest
        return (o, arg :: expressions)
    | .long name value =>
        match Flag.ofName? name, value with
        | none, _ => .error (.unknownFlag name)
        | some flag, some v => do
            parse (← o.set flag v) rest
        | some flag, none =>
            if flag.isSwitch then do
              parse (← o.turnOn flag) rest
            else
              match rest with
              | [] => .error (.missingValue name)
              | v :: rest => do
                  parse (← o.set flag v) rest
    | .group flags => do
        match ← o.setGroup flags with
        | (o, none) => parse o rest
        | (o, some (flag, c)) =>
            match rest with
            | [] => .error (.missingShortValue c [c])
            | v :: rest => do
                parse (← o.set flag v) rest

end Options

end ExprCompiler
