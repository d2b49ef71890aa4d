import Rulebook.Text.Blank

/-!
# Scanning text

A scan takes characters from the front of a text and may refuse it.
-/
namespace Rulebook.Text

abbrev Scan (α : Type) := StateT (List Char) Option α

namespace Scan

def peek : Scan (Option Char) := fun cs => some (cs.head?, cs)

/-- One character that passes the test. -/
def one (test : Char → Bool) : Scan Char
  | c :: rest => if test c then some (c, rest) else none
  | [] => none

def exactly (c : Char) : Scan Unit := do
  let _ ← one (· = c)

/-- All characters up to the first one that fails the test. -/
def span (test : Char → Bool) : Scan (List Char) := fun cs =>
  some (cs.takeWhile test, cs.dropWhile test)

def skipBlanks : Scan Unit := do
  let _ ← span isBlank

def value (digits : List Char) : Nat :=
  digits.foldl (fun n c => n * 10 + (c.toNat - '0'.toNat)) 0

/-- At least one digit, and at most `most` of them. -/
def number (most : Nat) : Scan Nat := fun cs =>
  match (cs.takeWhile Char.isDigit).take most with
  | [] => none
  | digits => some (value digits, cs.drop digits.length)

/-- As many digits as there are, at least one. -/
def anyNumber : Scan Nat := do
  match ← span Char.isDigit with
  | [] => failure
  | digits => pure (value digits)

/-- Exactly `count` digits. -/
def digits (count : Nat) : Scan Nat := fun cs =>
  let taken := cs.take count
  if taken.length = count ∧ taken.all Char.isDigit then some (value taken, cs.drop count) else none

/-- The result of a scan that takes the whole text. -/
def all? {α : Type} (scan : Scan α) (text : String) : Option α :=
  match scan text.toList with
  | some (a, []) => some a
  | _ => none

end Scan
end Rulebook.Text
