import Rulebook.Json

/-!
# JSON text

A value is written without blanks, its members in the order they are held in. Texts escape the
quote, the backslash and the control characters below U+0020, nothing else.
-/
namespace Rulebook.Json

/-- A hexadecimal digit in lower case. -/
def hexDigit (n : Nat) : Char := Nat.digitChar n

def escaped (c : Char) : List Char :=
  if c = '"' then ['\\', '"']
  else if c = '\\' then ['\\', '\\']
  else if c = '\n' then ['\\', 'n']
  else if c = '\r' then ['\\', 'r']
  else if c = '\t' then ['\\', 't']
  else if c.toNat = 8 then ['\\', 'b']
  else if c.toNat = 12 then ['\\', 'f']
  else if c.toNat < 32 then
    ['\\', 'u', '0', '0', hexDigit (c.toNat / 16), hexDigit (c.toNat % 16)]
  else [c]

def quoted (text : String) : List Char :=
  '"' :: text.toList.flatMap escaped ++ ['"']

mutual

def chars : Json → List Char
  | .null => ['n', 'u', 'l', 'l']
  | .bool true => ['t', 'r', 'u', 'e']
  | .bool false => ['f', 'a', 'l', 's', 'e']
  | .number n => n.chars
  | .string s => quoted s
  | .array [] => ['[', ']']
  | .array (v :: rest) => '[' :: chars v ++ itemsChars rest
  | .object [] => ['\x7b', '\x7d']
  | .object ((name, v) :: rest) => '\x7b' :: quoted name ++ ':' :: chars v ++ membersChars rest

/-- The items after the first one, and the bracket that closes them. -/
def itemsChars : List Json → List Char
  | [] => [']']
  | v :: rest => ',' :: chars v ++ itemsChars rest

/-- The members after the first one, and the brace that closes them. -/
def membersChars : List (String × Json) → List Char
  | [] => ['\x7d']
  | (name, v) :: rest => ',' :: quoted name ++ ':' :: chars v ++ membersChars rest

end

def text (v : Json) : String := String.ofList v.chars

end Rulebook.Json
