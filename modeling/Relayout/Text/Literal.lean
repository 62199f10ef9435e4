/-
# Literals in messages

Messages show lists in brackets and single characters in quotes, with the
usual escapes for what would not be seen.
-/
import Relayout.Text.Unseen

namespace Relayout.Text

/-- Items between brackets, separated by a comma and a blank. -/
def bracketed (items : List String) : String :=
  "[" ++ String.intercalate ", " items ++ "]"

/-- A list of naturals in brackets. -/
def natList (ns : List Nat) : String := bracketed (ns.map fun n => toString n)

/-- A list of integers in brackets. -/
def intList (is : List Int) : String := bracketed (is.map fun i => toString i)

/-- What stands for a character between single quotes.  A double quote needs
no escape there. -/
def escapedChar (c : Char) : List Char :=
  match c with
  | '\t' => ['\\', 't']
  | '\n' => ['\\', 'n']
  | '\r' => ['\\', 'r']
  | '\x00' => ['\\', '0']
  | '\\' => ['\\', '\\']
  | '\'' => ['\\', '\'']
  | _ =>
      if isUnseen c then
        ['\\', 'u', '\x7b'] ++ Nat.toDigits 16 c.toNat ++ ['\x7d']
      else [c]

/-- A character in single quotes. -/
def charLiteral (c : Char) : String :=
  String.ofList (['\''] ++ escapedChar c ++ ['\''])

/-- A list of characters, each in single quotes. -/
def charList (cs : List Char) : String := bracketed (cs.map charLiteral)

end Relayout.Text
