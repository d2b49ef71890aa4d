import Rulebook.Text.Ranges

/-!
# Ranges of characters as ranges of bytes

The UTF-8 forms of a range of characters are those of a few sequences of byte ranges: the first byte
of a form comes from the first range, the second byte from the second one, and so on.
-/
namespace Rulebook.Text.Utf8

/-- Forms of one length, a range of bytes for each place. -/
abbrev Sequence := List (Nat × Nat)

/-- The numbers from one to another, written as a first digit and further ones to base 64. The first
digit is offset by the mark, the further ones by 128. -/
def spans : Nat → Nat → Nat → Nat → List Sequence
  | 0, mark, first, last => [[(mark + first, mark + last)]]
  | more + 1, mark, first, last =>
    let size := Nat.pow 64 (more + 1)
    let a := first / size
    let b := last / size
    if a = b then
      (spans more 128 (first % size) (last % size)).map ((mark + a, mark + a) :: ·)
    else
      let fullFirst := first % size = 0
      let fullLast := last % size = size - 1
      let head := if fullFirst then [] else
        (spans more 128 (first % size) (size - 1)).map ((mark + a, mark + a) :: ·)
      let tail := if fullLast then [] else
        (spans more 128 0 (last % size)).map ((mark + b, mark + b) :: ·)
      let a := if fullFirst then a else a + 1
      let b := if fullLast then b else b - 1
      let middle := if a ≤ b then
        [(mark + a, mark + b) :: List.replicate (more + 1) (128, 191)] else []
      head ++ middle ++ tail

/-- The lengths of forms: how many bytes follow the first one, its mark, and the code points that
are written so. -/
def lengths : List (Nat × Nat × Nat × Nat) :=
  [(0, 0, 0, 0x7f), (1, 0xc0, 0x80, 0x7ff), (2, 0xe0, 0x800, 0xffff), (3, 0xf0, 0x10000, 0x10ffff)]

/-- The forms of a range of characters, in ascending order. -/
def ofRange (range : Nat × Nat) : List Sequence :=
  lengths.flatMap fun (more, mark, first, last) =>
    match Ranges.common range (first, last) with
    | some (first, last) => spans more mark first last
    | none => []

def ofRanges (ranges : Ranges) : List Sequence := ranges.flatMap ofRange

/-- How many bytes a character takes. -/
def size (n : Nat) : Nat :=
  if n < 0x80 then 1 else if n < 0x800 then 2 else if n < 0x10000 then 3 else 4

/-- The bytes of a character. -/
def encode (n : Nat) : List Nat := ((ofRange (n, n)).headD []).map (·.1)

/-- The character that a list of bytes writes, if it is just one. -/
def decodeOne? : List Nat → Option Nat
  | [a] => if a < 0x80 then some a else none
  | [a, b] => if a < 0xe0 then some ((a - 0xc0) * 64 + (b - 0x80)) else none
  | [a, b, c] =>
    if 0xe0 ≤ a ∧ a < 0xf0 then some (((a - 0xe0) * 64 + (b - 0x80)) * 64 + (c - 0x80)) else none
  | [a, b, c, d] =>
    if 0xf0 ≤ a then
      some ((((a - 0xf0) * 64 + (b - 0x80)) * 64 + (c - 0x80)) * 64 + (d - 0x80))
    else none
  | _ => none

end Rulebook.Text.Utf8
