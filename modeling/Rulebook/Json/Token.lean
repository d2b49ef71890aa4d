import Rulebook.Json

/-!
# Tokens of JSON text

Text falls into brackets, separators, names of constants, numbers and strings, with blanks between
them. Numbers follow the strict grammar: no leading zeros, digits on both sides of a point. A number
that is not whole comes from its digits and a power of ten, so it need not be the double nearest to
what is written. A number beyond the range and a string with half of a pair are tokens without a
value.
-/
namespace Rulebook.Json

inductive Token where
  | openArray
  | closeArray
  | openObject
  | closeObject
  | comma
  | colon
  | null
  | bool (value : Bool)
  | number (value : Option Number)
  | string (value : Option String)
deriving DecidableEq

namespace Token

def isBlank (c : Char) : Bool := c = ' ' || c = '\n' || c = '\t' || c = '\r'

def hexValue? (c : Char) : Option Nat :=
  if c.isDigit then some (c.toNat - '0'.toNat)
  else if 'a' ≤ c ∧ c ≤ 'f' then some (c.toNat - 'a'.toNat + 10)
  else if 'A' ≤ c ∧ c ≤ 'F' then some (c.toNat - 'A'.toNat + 10)
  else none

def hexValue4? (a b c d : Char) : Option Nat := do
  let a ← hexValue? a
  let b ← hexValue? b
  let c ← hexValue? c
  let d ← hexValue? d
  pure (((a * 16 + b) * 16 + c) * 16 + d)

def escapeValue? (c : Char) : Option Char :=
  match c with
  | '"' => some '"'
  | '\\' => some '\\'
  | '/' => some '/'
  | 'b' => some (Char.ofNat 8)
  | 'f' => some (Char.ofNat 12)
  | 'n' => some '\n'
  | 'r' => some '\r'
  | 't' => some '\t'
  | _ => none

/-- The character of a unit that is no half of a pair. -/
def unitChar? (unit : Nat) : Option Char :=
  if 0xd800 ≤ unit ∧ unit < 0xe000 then none else some (Char.ofNat unit)

/-- The character of two halves of a pair. -/
def pairChar? (high low : Nat) : Option Char :=
  if 0xd800 ≤ high ∧ high < 0xdc00 ∧ 0xdc00 ≤ low ∧ low < 0xe000 then
    some (Char.ofNat (0x10000 + (high - 0xd800) * 0x400 + (low - 0xdc00)))
  else none

/-- One more character in front of a string. -/
def prepend (c : Option Char) (text : Option (List Char)) : Option (List Char) := do
  pure ((← c) :: (← text))

/-- The rest of a string after its opening quote, last character first, and what follows the closing
quote. -/
def stringRest (before : Option (List Char)) :
    List Char → Option (Option (List Char) × List Char)
  | '"' :: rest => some (before, rest)
  | '\\' :: 'u' :: a :: b :: c :: d :: '\\' :: 'u' :: e :: f :: g :: h :: rest =>
    match hexValue4? a b c d with
    | none => none
    | some high =>
      match (hexValue4? e f g h).bind (pairChar? high) with
      | some x => stringRest (prepend (some x) before) rest
      | none =>
        stringRest (prepend (unitChar? high) before) ('\\' :: 'u' :: e :: f :: g :: h :: rest)
  | '\\' :: 'u' :: a :: b :: c :: d :: rest =>
    match hexValue4? a b c d with
    | some unit => stringRest (prepend (unitChar? unit) before) rest
    | none => none
  | '\\' :: c :: rest =>
    match escapeValue? c with
    | some x => stringRest (prepend (some x) before) rest
    | none => none
  | c :: rest =>
    if c.toNat < 32 ∨ c = '\\' then none else stringRest (prepend (some c) before) rest
  | [] => none

def digitsValue (digits : List Char) : Nat :=
  digits.foldl (fun n c => n * 10 + (c.toNat - '0'.toNat)) 0

/-- The digits of an exponent with its sign, after the mark. -/
def exponent? (cs : List Char) : Option (Int × List Char) :=
  let (negative, cs) := match cs with
    | '-' :: rest => (true, rest)
    | '+' :: rest => (false, rest)
    | _ => (false, cs)
  match cs.takeWhile Char.isDigit with
  | [] => none
  | digits =>
    let n := digitsValue digits
    some (if negative then -(n : Int) else n, cs.dropWhile Char.isDigit)

/-- Digits go behind a number as long as 64 bits hold it. Those that are left over begin with the
first one that does not go. -/
def fitDigits (n : Nat) : List Char → Nat × List Char
  | [] => (n, [])
  | c :: rest =>
    let longer := n * 10 + (c.toNat - '0'.toNat)
    if fitsUnsigned longer then fitDigits longer rest else (n, c :: rest)

/-- Digits that are left over count for their places only. -/
def fractional? (negative : Bool) (digits places : List Char) (exponent : Int) : Option Number :=
  let (n, above) := fitDigits 0 digits
  let (n, beyond) := fitDigits n places
  let place : Int := exponent + above.length - (places.length - beyond.length)
  (Double.ofParts? negative n place).map .double

/-- A whole number that fits stays whole; the others are doubles, and `-0` is one of them. -/
def wholeNumber? (negative : Bool) (digits : List Char) : Option Number :=
  let n := digitsValue digits
  if negative ∧ n = 0 then some (.double (.zero true))
  else match Whole.ofInt? (if negative then -(n : Int) else n) with
    | some w => some (.whole w)
    | none => fractional? negative digits [] 0

/-- The number after its sign, and what follows. -/
def magnitude? (negative : Bool) (cs : List Char) : Option (Option Number × List Char) :=
  let digits := cs.takeWhile Char.isDigit
  let rest := cs.dropWhile Char.isDigit
  if digits = [] ∨ (digits.head? = some '0' ∧ digits.length ≠ 1) then none
  else
    let (fraction, rest) := match rest with
      | '.' :: more => (some (more.takeWhile Char.isDigit), more.dropWhile Char.isDigit)
      | _ => (none, rest)
    let marked := match rest with
      | c :: more => if c = 'e' ∨ c = 'E' then some (exponent? more) else none
      | [] => none
    match fraction, marked with
    | some [], _ => none
    | _, some none => none
    | none, none => some (wholeNumber? negative digits, rest)
    | _, _ =>
      let (exponent, rest) := (marked.bind id).getD (0, rest)
      some (fractional? negative digits (fraction.getD []) exponent, rest)

def number? : List Char → Option (Option Number × List Char)
  | '-' :: rest => magnitude? true rest
  | cs => magnitude? false cs

/-- The token at the head of a text that starts with no blank. -/
def first? (cs : List Char) : Option (Token × List Char) :=
  match cs with
  | '[' :: rest => some (openArray, rest)
  | ']' :: rest => some (closeArray, rest)
  | '\x7b' :: rest => some (openObject, rest)
  | '\x7d' :: rest => some (closeObject, rest)
  | ',' :: rest => some (comma, rest)
  | ':' :: rest => some (colon, rest)
  | 'n' :: 'u' :: 'l' :: 'l' :: rest => some (null, rest)
  | 't' :: 'r' :: 'u' :: 'e' :: rest => some (bool true, rest)
  | 'f' :: 'a' :: 'l' :: 's' :: 'e' :: rest => some (bool false, rest)
  | '"' :: rest => (stringRest (some []) rest).map fun (text, rest) =>
    (string (text.map fun cs => String.ofList cs.reverse), rest)
  | cs => (number? cs).map fun (n, rest) => (number n, rest)

/-- Every token takes at least one character, so the length of the text bounds their count. -/
def scanFrom : Nat → List Char → Option (List Token)
  | 0, cs => if cs.dropWhile isBlank = [] then some [] else none
  | fuel + 1, cs =>
    match cs.dropWhile isBlank with
    | [] => some []
    | cs =>
      match first? cs with
      | none => none
      | some (token, rest) => (scanFrom fuel rest).map (token :: ·)

def scan (cs : List Char) : Option (List Token) := scanFrom cs.length cs

end Token
end Rulebook.Json
