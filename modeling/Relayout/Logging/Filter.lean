/-
# Log filters

A filter is a list of directives, with commas between them.  A directive names
a level for everything, or a scope: a target, a span in brackets, or a span of
a target.  A scope may have a level of its own after an equals sign:

    warn    net::conv    net::conv=debug    [step]    net[step{id=3}]=trace

Only the form is looked at here; where output is filtered, the pattern of a
field is matched, too.
-/
import Relayout.Text.Blank

namespace Relayout.Logging

/-! ## Levels -/

/-- A level by word, in any case of its letters. -/
def isLevelWord (cs : List Char) : Bool :=
  ["off", "error", "warn", "info", "debug", "trace"].contains
    (String.ofList (cs.map Char.toLower))

/-- The digits of a number, which may have a plus sign. -/
def unsignedDigits : List Char → List Char
  | '+' :: digits => digits
  | digits => digits

/-- A level by number: from zero, which is off, to five. -/
def isLevelNumber (cs : List Char) : Bool :=
  let digits := unsignedDigits cs
  !digits.isEmpty && digits.all Char.isDigit &&
    match digits.dropWhile (· == '0') with
    | [] => true
    | [digit] => digit ≤ '5'
    | _ => false

/-- What may follow an equals sign; nothing stands for every level. -/
def isLevelText (cs : List Char) : Bool :=
  cs.isEmpty || isLevelWord cs || isLevelNumber cs

/-! ## Scopes -/

/-- A character that a target may begin with.  Beyond ASCII all are taken for
letters. -/
def isTargetStart (c : Char) : Bool :=
  c.isAlphanum || c == '_' || c == ':' || c == '-' || 0x80 ≤ c.toNat

/-- What follows a span, from behind its opening bracket.  Fields stand in
braces at its end, and there is at least one where there are braces. -/
def afterSpan? (cs : List Char) : Option (List Char) :=
  match cs.dropWhile fun c => c != ']' && c != '\x7b' with
  | ']' :: rest => some rest
  | '\x7b' :: fields =>
      match fields.span (· != '\x7d') with
      | (_ :: _, '\x7d' :: ']' :: rest) => some rest
      | _ => none
  | _ => none

/-- What follows a scope.  A level for everything reads as a target. -/
def afterScope? : List Char → Option (List Char)
  | [] => none
  | '[' :: span => afterSpan? span
  | c :: name =>
      if isTargetStart c then
        match name.dropWhile fun c => c != '=' && c != '[' with
        | '[' :: span => afterSpan? span
        | rest => some rest
      else none

/-! ## Directives -/

/-- Whether a piece between commas is a directive.  White space around a scope
is passed over, but none may stand around one that has a level. -/
def isDirective (piece : List Char) : Bool :=
  let directive := Text.trim piece
  match afterScope? directive with
  | some [] => true
  | some ('=' :: level) => directive == piece && isLevelText level
  | _ => false

/-- The pieces of a text between commas. -/
def commaPieces : List Char → List (List Char)
  | [] => [[]]
  | ',' :: rest => [] :: commaPieces rest
  | c :: rest =>
      match commaPieces rest with
      | [] => [[c]]
      | piece :: pieces => (c :: piece) :: pieces

/-- Whether every directive of a filter is well-formed.  Empty pieces are
passed over. -/
def isFilter (s : String) : Bool :=
  ((commaPieces s.toList).filter fun piece => !piece.isEmpty).all isDirective

end Relayout.Logging
