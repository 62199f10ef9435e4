/-
# JSON tokens

The lexer splits a document into tokens; what lies between them is white
space.  Each kind of token has its own recogniser that takes its characters
off the front of the input.
-/
import Relayout.Json.Value

namespace Relayout.Json

/-- A token of a document. -/
inductive Token where
  | openArray
  | closeArray
  | openObject
  | closeObject
  | comma
  | colon
  | null
  | bool (value : Bool)
  | number (numeral : Numeral)
  | text (content : Option String)
deriving DecidableEq, Repr

/-! ## Texts -/

/-- One element of a quoted text: a character, or half of a surrogate pair
that was written as an escape. -/
inductive TextUnit where
  | char (c : Char)
  | surrogate (code : Nat)
deriving DecidableEq, Repr

/-- The unit written by a hexadecimal escape. -/
def TextUnit.ofCode (code : Nat) : TextUnit :=
  if 0xD800 ≤ code ∧ code < 0xE000 then .surrogate code else .char (Char.ofNat code)

/-- Units as characters: surrogates must come in pairs, high before low. -/
def joinUnits : List TextUnit → Option (List Char)
  | [] => some []
  | .char c :: rest => (joinUnits rest).map (c :: ·)
  | .surrogate high :: .surrogate low :: rest =>
      if high < 0xDC00 ∧ 0xDC00 ≤ low then
        (joinUnits rest).map
          (Char.ofNat (0x10000 + (high - 0xD800) * 0x400 + (low - 0xDC00)) :: ·)
      else none
  | .surrogate _ :: _ => none

def hexDigit? (c : Char) : Option Nat :=
  if '0' ≤ c ∧ c ≤ '9' then some (c.toNat - 48)
  else if 'a' ≤ c ∧ c ≤ 'f' then some (c.toNat - 87)
  else if 'A' ≤ c ∧ c ≤ 'F' then some (c.toNat - 55)
  else none

/-- The number written by four hexadecimal digits. -/
def hexCode? (a b c d : Char) : Option Nat := do
  let a ← hexDigit? a
  let b ← hexDigit? b
  let c ← hexDigit? c
  let d ← hexDigit? d
  return ((a * 16 + b) * 16 + c) * 16 + d

/-- The character that a letter stands for behind a backslash. -/
def unescape? : Char → Option Char
  | '"' => some '"'
  | '\\' => some '\\'
  | '/' => some '/'
  | 'b' => some '\x08'
  | 'f' => some '\x0c'
  | 'n' => some '\n'
  | 'r' => some '\r'
  | 't' => some '\t'
  | _ => none

/-- The units up to the closing quote, and the input behind it.  What was read
so far is held in reverse. -/
def scanText : List Char → List TextUnit → Option (List TextUnit × List Char)
  | [], _ => none
  | '"' :: rest, read => some (read.reverse, rest)
  | '\\' :: 'u' :: a :: b :: c :: d :: rest, read =>
      match hexCode? a b c d with
      | some code => scanText rest (.ofCode code :: read)
      | none => none
  | '\\' :: e :: rest, read =>
      match unescape? e with
      | some c => scanText rest (.char c :: read)
      | none => none
  | c :: rest, read =>
      if c.toNat < 32 ∨ c = '\\' then none else scanText rest (.char c :: read)

/-! ## Numbers -/

def isDigit (c : Char) : Bool := (Digit.ofChar? c).isSome

/-- The digits at the front of the input, and what follows them. -/
def scanDigits (input : List Char) : List Digit × List Char :=
  ((input.takeWhile isDigit).filterMap Digit.ofChar?, input.dropWhile isDigit)

/-- The whole part: a zero stands alone. -/
def scanWhole : List Char → Option (Nat × List Char)
  | '0' :: rest => some (0, rest)
  | input =>
      match scanDigits input with
      | ([], _) => none
      | (ds, rest) => some (Digit.toNat ds, rest)

/-- The fraction digits: none, or a point with at least one. -/
def scanFraction : List Char → Option (List Digit × List Char)
  | '.' :: input =>
      match scanDigits input with
      | ([], _) => none
      | (ds, rest) => some (ds, rest)
  | input => some ([], input)

/-- The sign of an exponent. -/
def scanSign : List Char → Bool × List Char
  | '-' :: rest => (true, rest)
  | '+' :: rest => (false, rest)
  | input => (false, input)

/-- The digits of an exponent, signed. -/
def scanPower (input : List Char) : Option (Option Int × List Char) :=
  let (negative, input) := scanSign input
  match scanDigits input with
  | ([], _) => none
  | (ds, rest) =>
      some (some (if negative then -(Digit.toNat ds : Int) else Digit.toNat ds), rest)

/-- The exponent, if there is one. -/
def scanExponent : List Char → Option (Option Int × List Char)
  | 'e' :: input => scanPower input
  | 'E' :: input => scanPower input
  | input => some (none, input)

/-- An unsigned number. -/
def scanUnsigned (negative : Bool) (input : List Char) : Option (Numeral × List Char) := do
  let (whole, input) ← scanWhole input
  let (fraction, input) ← scanFraction input
  let (exponent, input) ← scanExponent input
  return (⟨negative, whole, fraction, exponent⟩, input)

/-- A number with its sign. -/
def scanNumber : List Char → Option (Numeral × List Char)
  | '-' :: input => scanUnsigned true input
  | input => scanUnsigned false input

/-! ## Documents -/

def isSpace (c : Char) : Bool := c == ' ' || c == '\t' || c == '\n' || c == '\r'

/-- The token at the front of the input, which starts with no white space. -/
def scanToken : List Char → Option (Token × List Char)
  | '[' :: rest => some (.openArray, rest)
  | ']' :: rest => some (.closeArray, rest)
  | '\x7b' :: rest => some (.openObject, rest)
  | '\x7d' :: rest => some (.closeObject, rest)
  | ',' :: rest => some (.comma, rest)
  | ':' :: rest => some (.colon, rest)
  | 'n' :: 'u' :: 'l' :: 'l' :: rest => some (.null, rest)
  | 't' :: 'r' :: 'u' :: 'e' :: rest => some (.bool true, rest)
  | 'f' :: 'a' :: 'l' :: 's' :: 'e' :: rest => some (.bool false, rest)
  | '"' :: rest =>
      (scanText rest []).map fun (units, rest) =>
        (.text ((joinUnits units).map String.ofList), rest)
  | input => (scanNumber input).map fun (n, rest) => (.number n, rest)

/-- The tokens of the input, after those already read in reverse.  A token
takes at least one character, so the length of the input is fuel enough. -/
def scanTokens : Nat → List Char → List Token → Option (List Token)
  | fuel, input, read =>
      match input.dropWhile isSpace with
      | [] => some read.reverse
      | c :: rest =>
          match fuel with
          | 0 => none
          | fuel + 1 =>
              match scanToken (c :: rest) with
              | none => none
              | some (token, rest) => scanTokens fuel rest (token :: read)

/-- The tokens of a document. -/
def tokens (input : List Char) : Option (List Token) := scanTokens input.length input []

end Relayout.Json
