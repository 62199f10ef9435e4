/-
# Reading JSON

Tokens are read by a machine with an explicit stack of open arrays and
objects, one step per token, so documents may nest to any depth.  A document
is well-formed when the machine ends with exactly one finished value.
-/
import Relayout.Json.Token

namespace Relayout.Json

/-- A container that waits for a value.  Its contents so far are held in
reverse. -/
inductive Frame where
  | array (items : List Json)
  | object (members : List (Option String × Json)) (key : Option String)

/-- What the reader expects next, inside the containers `outer`. -/
inductive Reader where
  /-- A value. -/
  | value (outer : List Frame)
  /-- The first item of an array, or its end. -/
  | firstItem (outer : List Frame)
  /-- A comma or the end of an array. -/
  | afterItem (outer : List Frame) (items : List Json)
  /-- The first key of an object, or its end. -/
  | firstKey (outer : List Frame)
  /-- A key. -/
  | nextKey (outer : List Frame) (members : List (Option String × Json))
  /-- The colon behind a key. -/
  | colon (outer : List Frame) (members : List (Option String × Json)) (key : Option String)
  /-- A comma or the end of an object. -/
  | afterMember (outer : List Frame) (members : List (Option String × Json))
  /-- Nothing: the document is complete. -/
  | done (value : Json)

namespace Reader

/-- A finished value goes into the innermost open container. -/
def deliver (v : Json) : List Frame → Reader
  | [] => .done v
  | .array items :: outer => .afterItem outer (v :: items)
  | .object members key :: outer => .afterMember outer ((key, v) :: members)

/-- A token where a value is expected. -/
def startValue (outer : List Frame) : Token → Option Reader
  | .openArray => some (.firstItem outer)
  | .openObject => some (.firstKey outer)
  | .null => some (deliver .null outer)
  | .bool b => some (deliver (.bool b) outer)
  | .number n => some (deliver (.number n) outer)
  | .text t => some (deliver (.text t) outer)
  | _ => none

/-- One token. -/
def step : Reader → Token → Option Reader
  | .value outer, t => startValue outer t
  | .firstItem outer, .closeArray => some (deliver (.array []) outer)
  | .firstItem outer, t => startValue (.array [] :: outer) t
  | .afterItem outer items, .comma => some (.value (.array items :: outer))
  | .afterItem outer items, .closeArray => some (deliver (.array items.reverse) outer)
  | .firstKey outer, .closeObject => some (deliver (.object []) outer)
  | .firstKey outer, .text t => some (.colon outer [] t)
  | .nextKey outer members, .text t => some (.colon outer members t)
  | .colon outer members key, .colon => some (.value (.object members key :: outer))
  | .afterMember outer members, .comma => some (.nextKey outer members)
  | .afterMember outer members, .closeObject =>
      some (deliver (.object members.reverse) outer)
  | _, _ => none

/-- The finished document, if it is one. -/
def result : Reader → Option Json
  | .done v => some v
  | _ => none

end Reader

/-- The value written by a document. -/
def parse (document : String) : Option Json := do
  let tokens ← tokens document.toList
  let reader ← tokens.foldlM Reader.step (.value [])
  reader.result

end Relayout.Json
