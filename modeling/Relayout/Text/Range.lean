/-
# Ranges of code points

Classes of characters are given as closed ranges of code points, so that a
class reads as its table.
-/

namespace Relayout.Text

/-- Whether a character lies in one of the ranges. -/
def isIn (ranges : List (Nat × Nat)) (c : Char) : Bool :=
  ranges.any fun (lo, hi) => lo ≤ c.toNat && c.toNat ≤ hi

end Relayout.Text
