/-
# Reading typed values from JSON

Readers for the shapes that the models are made of.  A record is an object of
its fields, or an array of them in order; a choice is the bare name of an
alternative, or an object whose one key is the name.  Unknown keys are
skipped, a field given twice is refused, and a field may be left out only
where it says so.
-/
import Relayout.Json.Reader

namespace Relayout.Json

/- A power is the core library's, whatever other instances are in scope. -/
attribute [local instance (high)] instPowNat

/-! ## Single values -/

def toBool? : Json → Option Bool
  | .bool b => some b
  | _ => none

def toText? : Json → Option String
  | .text t => t
  | _ => none

/-- An integer from a closed range. -/
def toIntIn? (lo hi : Int) : Json → Option Int
  | .number n => n.toInt?.filter fun i => decide (lo ≤ i ∧ i ≤ hi)
  | _ => none

/-- An unsigned integer of the given width. -/
def toUnsigned? (width : Nat) (j : Json) : Option Nat :=
  (j.toIntIn? 0 (2 ^ width - 1)).map Int.toNat

/-- A signed integer of the given width. -/
def toSigned? (width : Nat) (j : Json) : Option Int :=
  j.toIntIn? (-(2 ^ (width - 1))) (2 ^ (width - 1) - 1)

/-- The bits of a float of the given format. -/
def toFloat? (f : Format) : Json → Option Nat
  | .number n => n.toFloat? f
  | _ => none

/-! ## Collections -/

/-- A list. -/
def toListOf? {α : Type} (read : Json → Option α) : Json → Option (List α)
  | .array items => items.mapM read
  | _ => none

/-- A value that may be null. -/
def toOptionOf? {α : Type} (read : Json → Option α) : Json → Option (Option α)
  | .null => some none
  | j => (read j).map some

/-- The entries of a map, in order, repetitions included. -/
def toEntriesOf? {α : Type} (read : Json → Option α) : Json → Option (List (String × α))
  | .object members => members.mapM fun (key, v) => do return (← key, ← read v)
  | _ => none

/-! ## Choices -/

/-- The name of an alternative and what is given with it. -/
def toChoice? : Json → Option (String × Option Json)
  | .text t => t.map fun name => (name, none)
  | .object [(key, payload)] => key.map fun name => (name, some payload)
  | _ => none

/-- Whether nothing is given with the name of an alternative. -/
def isBare : Option Json → Bool
  | none => true
  | some .null => true
  | some _ => false

/-! ## Records -/

/-- The fields of a record that were given. -/
structure Record where
  /-- Whether the fields were given by name and not by position. -/
  named : Bool
  fields : List (String × Json)

/-- The fields among `names` that a value gives. -/
def toRecord? (names : List String) : Json → Option Record
  | .array items =>
      if items.length ≤ names.length then some ⟨false, names.zip items⟩ else none
  | .object members => do
      let members ← members.mapM fun (key, v) => key.map fun name => (name, v)
      let known := members.filter fun (name, _) => names.contains name
      if (known.map fun (name, _) => name).Nodup then some ⟨true, known⟩ else none
  | _ => none

namespace Record

def find? (r : Record) (name : String) : Option Json :=
  (r.fields.find? fun (key, _) => key == name).map fun (_, v) => v

/-- A field that must be given. -/
def required? {α : Type} (r : Record) (name : String) (read : Json → Option α) : Option α :=
  (r.find? name).bind read

/-- A field with a value of its own when it is left out. -/
def defaulted? {α : Type} (r : Record) (name : String) (read : Json → Option α)
    (value : α) : Option α :=
  match r.find? name with
  | none => some value
  | some j => read j

/-- A field that may be null, and may be left out of an object. -/
def nullable? {α : Type} (r : Record) (name : String) (read : Json → Option α) :
    Option (Option α) :=
  match r.find? name with
  | none => if r.named then some none else none
  | some j => j.toOptionOf? read

end Record

end Relayout.Json
