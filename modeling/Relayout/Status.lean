/-
# Lifecycle

Tensors and operators go through the same stages, in one direction.  A stage
may be skipped: what needs no transform is converted right after parsing.
-/

namespace Relayout

/-- Conversion progress of a tensor or operator. -/
inductive Status where
  | inited
  | parsed
  | transformed
  | converted
deriving DecidableEq, Repr

namespace Status

/-- Position on the way. -/
def stage : Status → Nat
  | .inited => 0
  | .parsed => 1
  | .transformed => 2
  | .converted => 3

def isParsed (s : Status) : Bool := 1 ≤ s.stage

def isTransformed (s : Status) : Bool := 2 ≤ s.stage

def isConverted (s : Status) : Bool := s == .converted

def name : Status → String
  | .inited => "Inited"
  | .parsed => "Parsed"
  | .transformed => "Transformed"
  | .converted => "Converted"

end Status

end Relayout
