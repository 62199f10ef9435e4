/-
# JSON values

A JSON document as a value.  Objects keep their members in order, repeated
keys included, since readers differ on what a repetition means.  A text whose
escapes form no sequence of characters (a lone half of a surrogate pair) is
well-formed JSON all the same, and is held as a text without content: it may
be skipped, never read.
-/
import Relayout.Number.Numeral

namespace Relayout

/-- A JSON value. -/
inductive Json where
  | null
  | bool (value : Bool)
  | number (numeral : Numeral)
  | text (content : Option String)
  | array (items : List Json)
  | object (members : List (Option String × Json))

namespace Json

/-- A text with content. -/
def ofString (s : String) : Json := .text (some s)

def ofInt (i : Int) : Json := .number (.ofInt i)

/-- An object whose keys are plain texts. -/
def ofFields (fields : List (String × Json)) : Json :=
  .object (fields.map fun (key, value) => (some key, value))

end Json

end Relayout
