/-
# White space and letter case

Values taken from the environment are compared without surrounding white
space and without regard to the case of ASCII letters.  White space is the
Unicode property `White_Space`: twenty-five characters in ten ranges.
-/
import Relayout.Text.Range

namespace Relayout.Text

/-- Closed ranges of the property, ascending and apart. -/
def blankRanges : List (Nat × Nat) :=
  [(0x09, 0x0D), (0x20, 0x20), (0x85, 0x85), (0xA0, 0xA0), (0x1680, 0x1680),
    (0x2000, 0x200A), (0x2028, 0x2029), (0x202F, 0x202F), (0x205F, 0x205F),
    (0x3000, 0x3000)]

def isBlank (c : Char) : Bool := isIn blankRanges c

/-- Characters without the white space at their ends. -/
def trim (cs : List Char) : List Char :=
  ((cs.dropWhile isBlank).reverse.dropWhile isBlank).reverse

/-- A text without the white space at its ends. -/
def trimmed (s : String) : List Char := trim s.toList

/-- Whether a text holds white space only. -/
def isBlankText (s : String) : Bool := s.toList.all isBlank

/-- The form under which words are compared: trimmed, ASCII letters in lower
case, all other characters as they are. -/
def keyword (s : String) : String :=
  String.ofList ((trimmed s).map Char.toLower)

end Relayout.Text
