import Rulebook.Number.Bits
import Rulebook.Number.Shortest

/-!
# Numbers

A number is a whole number of 64 bits, signed or unsigned, or a double. The two are told apart:
`1` and `1.0` are different numbers of equal value.
-/
namespace Rulebook

/-- Integers that 64 bits hold, with a sign or without. -/
structure Whole where
  value : Int
  lower : -9223372036854775808 ≤ value
  upper : value < 18446744073709551616
deriving DecidableEq

inductive Number where
  | whole (value : Whole)
  | double (value : Double)
deriving DecidableEq

namespace Whole

def ofInt? (n : Int) : Option Whole :=
  if h : -9223372036854775808 ≤ n ∧ n < 18446744073709551616 then some ⟨n, h.1, h.2⟩ else none

end Whole

namespace Number

def ofNat (n : Nat) : Number :=
  match Whole.ofInt? n with
  | some w => .whole w
  | none => .double (.ofInt n)

def isWhole : Number → Bool
  | .whole _ => true
  | .double _ => false

/-- The value as a signed integer of 64 bits. -/
def signed? : Number → Option Int
  | .whole w => if fitsSigned w.value then some w.value else none
  | .double _ => none

/-- The value as an unsigned integer of 64 bits. -/
def unsigned? : Number → Option Nat
  | .whole w => if 0 ≤ w.value then some w.value.toNat else none
  | .double _ => none

def toDouble : Number → Double
  | .whole w => .ofInt w.value
  | .double d => d

/-- Two signed integers compare exactly; any other pair compares as doubles. -/
def compare (a b : Number) : Ordering :=
  match a.signed?, b.signed? with
  | some x, some y => Ord.compare x y
  | _, _ => Ord.compare a.toDouble.key b.toDouble.key

/-- Same form and same value; the two zeros of a double are the same. -/
def same : Number → Number → Bool
  | .whole a, .whole b => a.value = b.value
  | .double a, .double b => a.key = b.key
  | _, _ => false

def chars : Number → List Char
  | .whole w => (if w.value < 0 then ['-'] else []) ++ Nat.toDigits 10 w.value.natAbs
  | .double d => d.chars

end Number
end Rulebook
