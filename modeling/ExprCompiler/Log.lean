import ExprCompiler.Text.Quoted

/-
  Log entries, and the lines that they are written as.

  Key definitions include:
    * `Log.Entry`
    * `Log.Entry.render`

  A line has a time stamp, a level and a message, set off by
  tabs, and the entry's fields if it has any.
-/

------------------------------------------------------------
-- Entries
------------------------------------------------------------

namespace ExprCompiler

namespace Log

/- How grave an entry is. -/
inductive Level where
  | debug
  | error
deriving DecidableEq, Repr

namespace Level

/- The name of a level. -/
def name : Level → String
| .debug => "DEBUG"
| .error => "ERROR"

end Level

/- What a field holds. -/
inductive FieldValue where
  | text (t : Text)
  | count (n : Nat)
deriving DecidableEq, Repr

/- A named piece of data. -/
structure Field where
  name : String
  value : FieldValue
deriving DecidableEq, Repr

namespace Field

/- A field with a string. -/
def ofString
    (name s : String) :
    Field :=
  ⟨name, .text (Text.ofString s)⟩

end Field

/- A message with fields. -/
structure Entry where
  level : Level
  message : String
  fields : List Field := []
deriving DecidableEq, Repr

------------------------------------------------------------
-- Lines
------------------------------------------------------------

/- A glyph as it is written in a field. -/
def escaped : Glyph → Text
| .stray _ => Text.ofString "\\ufffd"
| .char c =>
    match c.toNat with
    | 0x22 => Text.ofString "\\\""
    | 0x5C => Text.ofString "\\\\"
    | 0x0A => Text.ofString "\\n"
    | 0x0D => Text.ofString "\\r"
    | 0x09 => Text.ofString "\\t"
    | n =>
        if n < 0x20 then
          Text.ofString ("\\u" ++ hexadecimal 4 n)
        else
          String.utf8EncodeChar c

namespace FieldValue

/- The text of a field's value. -/
def render : FieldValue → Text
| .text t =>
    Text.ofString "\"" ++ t.glyphs.flatMap escaped ++
      Text.ofString "\""
| .count n => Text.ofString (toString n)

end FieldValue

namespace Field

/- The text of a field. -/
def render
    (f : Field) :
    Text :=
  Text.ofString ("\"" ++ f.name ++ "\": ") ++ f.value.render

end Field

/- The text of all fields, which is empty if there are none. -/
def renderFields : List Field → Text
| [] => []
| fields =>
    Text.ofString "\t\x7b" ++
      (Text.ofString ", ").intercalate
        (fields.map Field.render) ++
      Text.ofString "\x7d"

namespace Entry

/- The line of an entry with the given time stamp. -/
def render
    (stamp : String)
    (e : Entry) :
    Text :=
  Text.ofString
      (stamp ++ "\t" ++ e.level.name ++ "\t" ++ e.message) ++
    renderFields e.fields ++ Text.newline

end Entry

end Log

end ExprCompiler
