import Mathlib.Algebra.Order.Field.Power
import Mathlib.Algebra.Order.Field.Rat
import Mathlib.Tactic.FieldSimp
import Rulebook.Proofs.ShortestDecimals

/-!
# The values of decimals

The decimal that is written for a double has a value that rounds to the double, so that it tells
the double from all others of its sign.
-/
namespace Rulebook.Double

/-- The digits stand after the point, which has been moved to its place. -/
def Decimal.value (d : Decimal) : ℚ :=
  Nat.ofDigitChars 10 d.digits 0 * 10 ^ (d.point - d.digits.length)

/-- Digits without the zeros at their end, and how many there were. -/
theorem exists_zeros (digits : List Char) :
    ∃ zeros, digits = (digits.reverse.dropWhile (· = '0')).reverse ++ List.replicate zeros '0' := by
  refine ⟨(digits.reverse.takeWhile (· = '0')).length, ?_⟩
  have hzeros : digits.reverse.takeWhile (· = '0') =
      List.replicate (digits.reverse.takeWhile (· = '0')).length '0' := by
    rw [List.eq_replicate_iff]
    refine ⟨rfl, fun c hc => ?_⟩
    have hall : (digits.reverse.takeWhile (· = '0')).all (· = '0') = true := List.all_takeWhile
    simpa using List.all_eq_true.mp hall c hc
  have hsplit := List.takeWhile_append_dropWhile (p := (· = '0')) (l := digits.reverse)
  have hreverse := congrArg List.reverse hsplit
  rw [List.reverse_append, List.reverse_reverse, hzeros, List.reverse_replicate] at hreverse
  exact hreverse.symm

/-- A number with its digits written out to a place, less the zeros at their end. -/
def Decimal.ofMultiple (c : Nat) (place : Int) : Decimal :=
  let digits := Nat.toDigits 10 c
  { digits := (digits.reverse.dropWhile (· = '0')).reverse
    point := place + digits.length }

theorem Decimal.ofMultiple_value (c : Nat) (place : Int) :
    (ofMultiple c place).value = c * 10 ^ place := by
  unfold ofMultiple value
  dsimp only
  obtain ⟨zeros, hzeros⟩ := exists_zeros (Nat.toDigits 10 c)
  generalize ((Nat.toDigits 10 c).reverse.dropWhile (· = '0')).reverse = stripped at hzeros ⊢
  have hdigits : 10 ^ zeros * Nat.ofDigitChars 10 stripped 0 = c := by
    rw [← Nat.ofDigitChars_replicate_zero, ← Nat.ofDigitChars_append, ← hzeros,
      Nat.ofDigitChars_ten_toDigits]
  have hlength : (Nat.toDigits 10 c).length = stripped.length + zeros := by
    rw [hzeros, List.length_append, List.length_replicate]
  have hplace : place + ((stripped.length + zeros : Nat) : Int) - stripped.length =
      place + zeros := by omega
  rw [hlength, hplace, ← hdigits, zpow_add₀ (by norm_num), zpow_natCast]
  push_cast
  ring

theorem shortest_eq {d : Double} (hrank : 0 < d.rank) :
    ∃ c count, d.interval.atCount? d.interval.point count = some c ∧
      d.shortest = Decimal.ofMultiple c (d.interval.point - count) := by
  have hsome : ((List.range 17).findSome? fun k =>
      (d.interval.atCount? d.interval.point (k + 1)).map fun c => (c, k + 1)).isSome = true := by
    rw [List.findSome?_isSome_iff]
    exact ⟨16, by decide, by rw [Option.isSome_map]; exact found_at_seventeen hrank⟩
  obtain ⟨⟨c, count⟩, hfound⟩ := Option.isSome_iff_exists.mp hsome
  obtain ⟨k, -, hk⟩ := List.exists_of_findSome?_eq_some hfound
  obtain ⟨c', hc', hpair⟩ := Option.map_eq_some_iff.mp hk
  cases hpair
  refine ⟨c, k + 1, hc', ?_⟩
  unfold shortest
  dsimp only
  rw [hfound]
  rfl

/-- What is written for a double has a value in its interval. -/
theorem shortest_value {d : Double} (hrank : 0 < d.rank) :
    ∃ (c count : Nat), d.interval.contains
        (c * (Interval.denominator * 10 ^ (d.interval.point - count).toNat))
        (10 ^ ((count : Int) - d.interval.point).toNat) = true ∧
      d.shortest.value = c * 10 ^ (d.interval.point - count) := by
  obtain ⟨c, count, hcount, hshortest⟩ := shortest_eq hrank
  exact ⟨c, count, contains_of_atCount hcount, by rw [hshortest, Decimal.ofMultiple_value]⟩

/-- A power of ten with an exponent of either sign, as a quotient of two without. -/
theorem pow_toNat_eq (place : Int) :
    (10 : ℚ) ^ place.toNat = 10 ^ place * 10 ^ (-place).toNat := by
  rw [← zpow_natCast, ← zpow_natCast, ← zpow_add₀ (by norm_num)]
  congr 1
  omega

/-- Equal multiples of powers of ten, over a common denominator. -/
theorem cross_eq {c c' : Nat} (denominator : Nat) {place place' : Int}
    (h : (c : ℚ) * 10 ^ place = c' * 10 ^ place') :
    c * (denominator * 10 ^ place.toNat) * 10 ^ (-place').toNat =
      c' * (denominator * 10 ^ place'.toNat) * 10 ^ (-place).toNat := by
  have hcast : ((c * (denominator * 10 ^ place.toNat) * 10 ^ (-place').toNat : Nat) : ℚ) =
      ((c' * (denominator * 10 ^ place'.toNat) * 10 ^ (-place).toNat : Nat) : ℚ) := by
    push_cast
    rw [pow_toNat_eq place, pow_toNat_eq place']
    generalize (10 : ℚ) ^ (-place).toNat = up
    generalize (10 : ℚ) ^ (-place').toNat = up'
    calc (c : ℚ) * (denominator * (10 ^ place * up)) * up' =
        (c * 10 ^ place) * (denominator * up * up') := by ring
      _ = (c' * 10 ^ place') * (denominator * up * up') := by rw [h]
      _ = c' * (denominator * (10 ^ place' * up')) * up := by ring
  exact_mod_cast hcast

/-- Decimals of equal value are written for doubles of equal rank. -/
theorem rank_eq_of_shortest_value {d e : Double} (hd : 0 < d.rank) (he : 0 < e.rank)
    (h : d.shortest.value = e.shortest.value) : d.rank = e.rank := by
  obtain ⟨c, count, hcontains, hvalue⟩ := shortest_value hd
  obtain ⟨c', count', hcontains', hvalue'⟩ := shortest_value he
  refine rank_eq_of_contains hcontains hcontains' (Nat.pow_pos (by decide))
    (Nat.pow_pos (by decide)) ?_
  have hneg : (count : Int) - d.interval.point = -(d.interval.point - count) := by omega
  have hneg' : (count' : Int) - e.interval.point = -(e.interval.point - count') := by omega
  rw [hneg, hneg']
  exact cross_eq Interval.denominator (hvalue.symm.trans (h.trans hvalue'))

theorem shortest_value_pos {d : Double} (hrank : 0 < d.rank) : 0 < d.shortest.value := by
  obtain ⟨c, count, hcontains, hvalue⟩ := shortest_value hrank
  obtain ⟨rank, hrank'⟩ : ∃ rank, d.rank = rank + 1 := ⟨d.rank - 1, by omega⟩
  have hlow := (contains_bounds hcontains).1
  rw [interval_low hrank'] at hlow
  have hpos : 0 < boundary rank * 10 ^ ((count : Int) - d.interval.point).toNat :=
    Nat.mul_pos (Nat.mul_pos (by omega) (Nat.two_pow_pos _)) (Nat.pow_pos (by decide))
  have hc : 0 < c := by
    refine Nat.pos_of_ne_zero fun hzero => ?_
    rw [hzero, Nat.zero_mul] at hlow
    omega
  rw [hvalue]
  exact mul_pos (Nat.cast_pos.mpr hc) (zpow_pos (by norm_num) _)

end Rulebook.Double
