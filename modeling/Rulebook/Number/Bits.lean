/-!
# Integers of 64 bits

The limits of the integers that 64 bits hold, with a sign and without.
-/
namespace Rulebook

/-- From `-2 ^ 63` up to `2 ^ 63 - 1`. -/
def fitsSigned (n : Int) : Bool := -9223372036854775808 ≤ n && n < 9223372036854775808

/-- Up to `2 ^ 64 - 1`. -/
def fitsUnsigned (n : Nat) : Bool := n < 18446744073709551616

theorem fitsSigned_iff {n : Int} :
    fitsSigned n = true ↔ -9223372036854775808 ≤ n ∧ n < 9223372036854775808 := by
  simp [fitsSigned]

end Rulebook
