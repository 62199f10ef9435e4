/-
# Settings from the environment

The environment variables that a run may look at.  A variable that is unset
and one that holds white space only mean the same.
-/
import Relayout.Text.Blank

namespace Relayout

/-- The variables, as they were set when the run began. -/
structure Environment where
  strictRegistry : Option String
  logLevel : Option String
  logFormat : Option String
  /-- A complete log filter; it takes precedence over the level. -/
  logFilter : Option String
deriving DecidableEq, Repr

namespace Environment

/-- Nothing is set. -/
def empty : Environment := ⟨none, none, none, none⟩

/-- A variable that says something. -/
def filled (setting : Option String) : Option String :=
  setting.filter fun s => !Text.isBlankText s

/-- Whether a value is one of the words for yes. -/
def isAffirmative (s : String) : Bool :=
  ["1", "true", "yes", "on"].contains (Text.keyword s)

/-- Whether conflicting requests for a tensor are errors by default; they are
unless the environment says otherwise. -/
def strictByDefault (env : Environment) : Bool :=
  match filled env.strictRegistry with
  | some s => isAffirmative s
  | none => true

end Environment

end Relayout
