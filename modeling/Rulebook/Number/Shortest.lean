import Rulebook.Number.Double

/-!
# Shortest decimals

A double is written with the fewest digits that read back as the same double, and of those with the
digits nearest to its value. The numbers that read back form an interval around the value; its ends
belong to it when the significand is even.
-/
namespace Rulebook.Double

/-- Numerators over the common denominator `4 * unit`: the value and the ends of the interval
of numbers that round to it. -/
structure Interval where
  low : Nat
  value : Nat
  high : Nat
  closed : Bool

def Interval.denominator : Nat := 4 * unit

def interval (d : Double) : Interval :=
  let m := d.significand
  let step := Nat.pow 2 d.scale
  { low := (4 * m - if m = binade ∧ 0 < d.scale then 1 else 2) * step
    value := 4 * m * step
    high := (4 * m + 2) * step
    closed := m % 2 = 0 }

/-- Whether `n / (d * denominator)` lies in the interval. -/
def Interval.contains (i : Interval) (n d : Nat) : Bool :=
  if i.closed then i.low * d ≤ n ∧ n ≤ i.high * d else i.low * d < n ∧ n < i.high * d

/-- How many zeros follow the point before the first digit of `n / d < 1`. -/
def leadingZeros (n d : Nat) : Nat → Nat
  | 0 => 0
  | fuel + 1 => if d ≤ n * 10 then 0 else leadingZeros (n * 10) d fuel + 1

/-- The least `p` with value below `10 ^ p`. -/
def Interval.point (i : Interval) : Int :=
  if Interval.denominator ≤ i.value then
    (Nat.toDigits 10 (i.value / Interval.denominator)).length
  else -(leadingZeros i.value Interval.denominator 400 : Nat)

/-- The multiple of `10 ^ (point - count)` in the interval that is nearest to the value. -/
def Interval.atCount? (i : Interval) (point : Int) (count : Nat) : Option Nat :=
  let up := Nat.pow 10 ((count : Int) - point).toNat
  let down := Nat.pow 10 (point - count).toNat
  let step := Interval.denominator * down
  let below := i.value * up / step
  let inside := fun c => i.contains (c * step) up
  let twice := 2 * (i.value * up)
  let middle := (2 * below + 1) * step
  let nearest := if twice < middle then below else if middle < twice then below + 1
    else below + below % 2
  let other := 2 * below + 1 - nearest
  if inside nearest then some nearest else if inside other then some other else none

/-- Digits without zeros at either end, and the place of the point before them. -/
structure Decimal where
  digits : List Char
  point : Int
deriving DecidableEq

/-- Seventeen digits always suffice. -/
def shortest (d : Double) : Decimal :=
  let i := d.interval
  let point := i.point
  let found := (List.range 17).findSome? fun k =>
    (i.atCount? point (k + 1)).map fun c => (c, k + 1)
  let (c, count) := found.getD (0, 1)
  let digits := Nat.toDigits 10 c
  { digits := (digits.reverse.dropWhile (· = '0')).reverse
    point := point - count + digits.length }

/-- The point stands between the digits, or zeros fill the gap. -/
def Decimal.positional (d : Decimal) : List Char :=
  let count : Int := d.digits.length
  if d.point ≤ 0 then '0' :: '.' :: List.replicate (-d.point).toNat '0' ++ d.digits
  else if count ≤ d.point then d.digits ++ List.replicate (d.point - count).toNat '0' ++ ['.', '0']
  else d.digits.take d.point.toNat ++ '.' :: d.digits.drop d.point.toNat

/-- One digit before the point, no point after a single digit, and an exponent with its sign. -/
def Decimal.scientific (d : Decimal) : List Char :=
  let exponent := d.point - 1
  let sign := if exponent < 0 then '-' else '+'
  let fraction := match d.digits.drop 1 with
    | [] => []
    | rest => '.' :: rest
  d.digits.take 1 ++ fraction ++ 'e' :: sign :: Nat.toDigits 10 exponent.natAbs

/-- Positional from `1e-5` up to `1e16`, else scientific. -/
def Decimal.chars (d : Decimal) : List Char :=
  if -5 < d.point ∧ d.point ≤ 16 then d.positional else d.scientific

def chars (d : Double) : List Char :=
  (if d.negative then ['-'] else []) ++
    if d.rank = 0 then ['0', '.', '0'] else d.shortest.chars

end Rulebook.Double
