/-!
# Doubles

A finite binary64 number is a sign and a rank. The rank counts the magnitudes below it, so
magnitudes compare as their ranks do. Every decimal and every integer has a nearest rank, found in
exact arithmetic; a tie goes to the even one. Products and quotients are rounded in the same way,
and a decimal that is taken in two steps is rounded twice.
-/
namespace Rulebook

/-- The rank just above the greatest finite magnitude. -/
def Double.rankLimit : Nat := 0x7ff * 4503599627370496

structure Double where
  negative : Bool
  rank : Nat
  rank_lt : rank < Double.rankLimit
deriving DecidableEq

namespace Double

/-- How many ranks share one exponent: `2 ^ 52`. -/
def binade : Nat := 4503599627370496

/-- How many steps of the least magnitude make one: `2 ^ 1074`. -/
def unit : Nat := Nat.pow 2 1074

/-- The magnitude is `significand * 2 ^ scale / unit`. -/
def significand (d : Double) : Nat :=
  if d.rank < binade then d.rank else binade + d.rank % binade

def scale (d : Double) : Nat := d.rank / binade - 1

/-- Orders doubles by value: both zeros have key 0. -/
def key (d : Double) : Int := if d.negative then -(d.rank : Int) else d.rank

/-- The quotient rounded to the nearest integer, a half to the even one. -/
def roundDiv (n d : Nat) : Nat :=
  let q := n / d
  let r := n % d
  if 2 * r < d then q else if d < 2 * r then q + 1 else q + q % 2

/-- The rank nearest to `n / d`, as if exponents had no upper end. -/
def rankOfRatio (n d : Nat) : Nat :=
  let units := n * unit
  let scale := (units / d).log2 - 52
  scale * binade + roundDiv units (d * Nat.pow 2 scale)

def ofRank? (negative : Bool) (rank : Nat) : Option Double :=
  if h : rank < rankLimit then some ⟨negative, rank, h⟩ else none

def zero (negative : Bool) : Double := ⟨negative, 0, by decide⟩

/-- The nearest double, and the greatest finite one for all that lies beyond. -/
def ofInt (n : Int) : Double where
  negative := n < 0
  rank := min (rankOfRatio n.natAbs 1) (rankLimit - 1)
  rank_lt := by have : 0 < rankLimit := by decide
                omega

/-- The double nearest to `digits * 10 ^ exponent`, if that is finite. Exponents far outside the
range are settled by the count of digits alone. -/
def ofDecimal? (negative : Bool) (digits : Nat) (exponent : Int) : Option Double :=
  let magnitude := (Nat.toDigits 10 digits).length + exponent
  if digits = 0 ∨ magnitude < -400 then some (zero negative)
  else if magnitude > 400 then none
  else if 0 ≤ exponent then ofRank? negative (rankOfRatio (digits * Nat.pow 10 exponent.toNat) 1)
  else ofRank? negative (rankOfRatio digits (Nat.pow 10 (-exponent).toNat))

/-- The magnitude as a multiple of the least one. -/
def multiple (d : Double) : Nat := d.significand * Nat.pow 2 d.scale

/-- The nearest double, if it is finite. -/
def times? (d e : Double) : Option Double :=
  ofRank? (d.negative != e.negative) (rankOfRatio (d.multiple * e.multiple) (unit * unit))

def over? (d e : Double) : Option Double :=
  ofRank? (d.negative != e.negative) (rankOfRatio d.multiple e.multiple)

def powerOfTen (n : Nat) : Double := ofInt (Nat.pow 10 n)

/-- Divided so many times by the greatest power of ten that is a double, until nothing is left. -/
def lowered? : Nat → Double → Option Double
  | 0, d => some d
  | rounds + 1, d =>
    if d.rank = 0 then some d
    else (d.over? (powerOfTen 308)).bind (lowered? rounds)

/-- The double times a power of ten. -/
def scaled? (d : Double) (exponent : Int) : Option Double :=
  if 308 < exponent then
    if d.rank = 0 then some d else none
  else if 0 ≤ exponent then d.times? (powerOfTen exponent.toNat)
  else
    let rounds := (exponent.natAbs - 1) / 308
    (lowered? rounds d).bind fun d => d.over? (powerOfTen (exponent.natAbs - 308 * rounds))

/-- A double for the digits, times a power of ten. -/
def ofParts? (negative : Bool) (digits : Nat) (exponent : Int) : Option Double :=
  scaled? { ofInt digits with negative } exponent

end Double
end Rulebook
