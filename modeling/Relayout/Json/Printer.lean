/-
# Writing JSON

Documents are written for people: one item or member per line, two blanks of
indentation per level, `[]` and an empty pair of braces for what is empty.
-/
import Relayout.Json.Value

namespace Relayout.Json

/-- The letter of a character that has a short escape. -/
def shortEscape? : Char → Option Char
  | '"' => some '"'
  | '\\' => some '\\'
  | '\x08' => some 'b'
  | '\x0c' => some 'f'
  | '\n' => some 'n'
  | '\r' => some 'r'
  | '\t' => some 't'
  | _ => none

/-- A character inside quotes.  Of the characters that may not stand there,
those without a letter are below 32, so two hexadecimal digits suffice. -/
def escaped (c : Char) : List Char :=
  match shortEscape? c with
  | some letter => ['\\', letter]
  | none =>
      if c.toNat < 32 then
        ['\\', 'u', '0', '0', Nat.digitChar (c.toNat / 16), Nat.digitChar (c.toNat % 16)]
      else [c]

/-- A text in quotes. -/
def quoted (cs : List Char) : List Char := '"' :: cs.flatMap escaped ++ ['"']

/-- A new line at a level of indentation. -/
def newLine (depth : Nat) : List Char := '\n' :: List.replicate (2 * depth) ' '

/-- A text token; one without content cannot be written, and is null. -/
def textForm : Option String → List Char
  | some s => quoted s.toList
  | none => "null".toList

mutual

/-- The written form of a value whose line is at the given depth. -/
def form (depth : Nat) : Json → List Char
  | .null => "null".toList
  | .bool true => "true".toList
  | .bool false => "false".toList
  | .number n => n.text
  | .text t => textForm t
  | .array [] => ['[', ']']
  | .array (v :: vs) =>
      '[' :: newLine (depth + 1) ++ form (depth + 1) v ++ itemForms (depth + 1) vs ++
        newLine depth ++ [']']
  | .object [] => ['\x7b', '\x7d']
  | .object ((key, v) :: members) =>
      '\x7b' :: newLine (depth + 1) ++ textForm key ++ [':', ' '] ++ form (depth + 1) v ++
        memberForms (depth + 1) members ++ newLine depth ++ ['\x7d']

/-- The items behind the first, each after a comma on a line of its own. -/
def itemForms (depth : Nat) : List Json → List Char
  | [] => []
  | v :: vs => ',' :: newLine depth ++ form depth v ++ itemForms depth vs

/-- The members behind the first. -/
def memberForms (depth : Nat) : List (Option String × Json) → List Char
  | [] => []
  | (key, v) :: members =>
      ',' :: newLine depth ++ textForm key ++ [':', ' '] ++ form depth v ++
        memberForms depth members

end

/-- The written form of a document. -/
def print (v : Json) : String := String.ofList (form 0 v)

end Relayout.Json
