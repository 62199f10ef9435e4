/-
# Identifiers

Tensors and operators of a graph live in two arenas and refer to each other by
their position there, in order of creation.
-/

namespace Relayout

/-- Position of a tensor in its registry. -/
structure TensorId where
  index : Nat
deriving DecidableEq, Repr

/-- Position of an operator in its graph. -/
structure OpId where
  index : Nat
deriving DecidableEq, Repr

def TensorId.text (id : TensorId) : String := "TensorId(" ++ toString id.index ++ ")"

def OpId.text (id : OpId) : String := "OpId(" ++ toString id.index ++ ")"

end Relayout
