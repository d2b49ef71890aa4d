import Rulebook.Proofs.Magnitudes

/-!
# Shortest decimals round to their doubles

Seventeen digits reach into the interval of every double: the multiples of the last place lie so
close together that the one nearest to the value cannot miss it. What is written is therefore a
number that rounds to the double, whatever the count of digits that was found first.
-/
namespace Rulebook.Double

/-- When the fuel reaches as far as the first digit, it lies right after the zeros. -/
theorem leadingZeros_spec {n d fuel : Nat} (h : d ≤ n * 10 ^ fuel) :
    d ≤ n * 10 ^ (leadingZeros n d fuel + 1) := by
  induction fuel generalizing n with
  | zero =>
    rw [leadingZeros]
    omega
  | succ fuel ih =>
    rw [leadingZeros]
    split
    · next hfirst => rwa [Nat.zero_add, Nat.pow_one]
    · have hnext : d ≤ n * 10 * 10 ^ fuel := by rwa [Nat.mul_assoc, ← Nat.pow_succ']
      have hspec := ih hnext
      rwa [Nat.mul_assoc, ← Nat.pow_succ'] at hspec

theorem pow_length_toDigits_le {n : Nat} (h : 0 < n) :
    10 ^ ((Nat.toDigits 10 n).length - 1) ≤ n := by
  rcases Nat.eq_zero_or_pos ((Nat.toDigits 10 n).length - 1) with hone | hmore
  · rw [hone, Nat.pow_zero]
    exact h
  · have hlong : ¬ (Nat.toDigits 10 n).length ≤ (Nat.toDigits 10 n).length - 1 := by omega
    rw [Nat.length_toDigits_le_iff (by decide) hmore] at hlong
    exact Nat.not_lt.mp hlong

/-- The exponent has a name, since the power is too great to be written out. -/
theorem unit_eq_pow : ∃ k, k = 1074 ∧ unit = 2 ^ k := by
  unfold unit
  generalize 1074 = exponent
  exact ⟨exponent, rfl, rfl⟩

theorem unit_pos : 0 < unit := by
  obtain ⟨k, -, hunit⟩ := unit_eq_pow
  rw [hunit]
  exact Nat.two_pow_pos k

theorem denominator_pos : 0 < Interval.denominator := Nat.mul_pos (by decide) unit_pos

theorem four_mul_two_pow_le {k n : Nat} (h : 2 + k ≤ 3 * n) : 4 * 2 ^ k ≤ 10 ^ n :=
  calc 4 * 2 ^ k = 2 ^ (2 + k) := (Nat.pow_add 2 2 k).symm
    _ ≤ 2 ^ (3 * n) := Nat.pow_le_pow_right (by decide) h
    _ = (2 ^ 3) ^ n := Nat.pow_mul 2 3 n
    _ ≤ 10 ^ n := Nat.pow_le_pow_left (by decide) n

theorem denominator_le : Interval.denominator ≤ 10 ^ 400 := by
  obtain ⟨k, hk, hunit⟩ := unit_eq_pow
  rw [Interval.denominator, hunit]
  exact four_mul_two_pow_le (by omega)

theorem step_le_of_count {v d count : Nat} (hpos : 0 < count) (h : d * 10 ^ (count - 1) ≤ v) :
    d * 10 ^ ((count : Int) - (17 : Nat)).toNat * 10 ^ 16 ≤
      v * 10 ^ (((17 : Nat) : Int) - count).toNat := by
  rcases le_or_gt count 17 with hfew | hmany
  · have hdown : ((count : Int) - (17 : Nat)).toNat = 0 := by omega
    have hup : (((17 : Nat) : Int) - count).toNat = 17 - count := by omega
    have hexp : 16 = (count - 1) + (17 - count) := by omega
    rw [hdown, hup, Nat.pow_zero, Nat.mul_one, hexp, Nat.pow_add, ← Nat.mul_assoc]
    exact Nat.mul_le_mul_right _ h
  · have hdown : ((count : Int) - (17 : Nat)).toNat + 16 = count - 1 := by omega
    have hup : (((17 : Nat) : Int) - count).toNat = 0 := by omega
    rw [hup, Nat.pow_zero, Nat.mul_one, Nat.mul_assoc, ← Nat.pow_add, hdown]
    exact h

theorem step_le_of_zeros {v d zeros : Nat} (h : d ≤ v * 10 ^ (zeros + 1)) :
    d * 10 ^ (-(zeros : Int) - (17 : Nat)).toNat * 10 ^ 16 ≤
      v * 10 ^ (((17 : Nat) : Int) - -(zeros : Int)).toNat := by
  have hdown : (-(zeros : Int) - (17 : Nat)).toNat = 0 := by omega
  have hup : (((17 : Nat) : Int) - -(zeros : Int)).toNat = zeros + 1 + 16 := by omega
  have hpow : v * 10 ^ (zeros + 1 + 16) = v * 10 ^ (zeros + 1) * 10 ^ 16 := by
    rw [Nat.pow_add _ (zeros + 1), Nat.mul_assoc]
  rw [hdown, hup, Nat.pow_zero, Nat.mul_one, hpow]
  generalize 10 ^ 16 = places
  exact Nat.mul_le_mul_right places h

attribute [local irreducible] Interval.denominator

/-- In the seventeenth place a step is at most `10 ^ -16` of the value. -/
theorem step_le_value {i : Interval} (hvalue : 0 < i.value) :
    Interval.denominator * 10 ^ (i.point - (17 : Nat)).toNat * 10 ^ 16 ≤
      i.value * 10 ^ (((17 : Nat) : Int) - i.point).toNat := by
  unfold Interval.point
  split
  · next hle =>
    have hdigits := pow_length_toDigits_le (Nat.div_pos hle denominator_pos)
    rw [Nat.le_div_iff_mul_le denominator_pos, Nat.mul_comm] at hdigits
    exact step_le_of_count (List.length_pos_iff.mpr Nat.toDigits_ne_nil) hdigits
  · have hreach : Interval.denominator ≤ i.value * 10 ^ 400 :=
      le_trans denominator_le (Nat.le_mul_of_pos_left _ hvalue)
    exact step_le_of_zeros (leadingZeros_spec hreach)

/-- The multiple of a step that is nearest to a number, as it is chosen among two. -/
def nearest (n step : Nat) : Nat :=
  let below := n / step
  if 2 * n < (2 * below + 1) * step then below
  else if (2 * below + 1) * step < 2 * n then below + 1
  else below + below % 2

theorem nearest_within {n step : Nat} (hstep : 0 < step) :
    2 * (nearest n step * step) ≤ 2 * n + step ∧ 2 * n ≤ 2 * (nearest n step * step) + step := by
  have hbelow : n / step * step ≤ n := Nat.div_mul_le_self n step
  have habove : n < n / step * step + step := by
    have := Nat.lt_div_mul_add hstep (a := n)
    omega
  unfold nearest
  dsimp only
  generalize n / step = below at hbelow habove ⊢
  have hmiddle : (2 * below + 1) * step = 2 * (below * step) + step := by ring
  have hnext : (below + 1) * step = below * step + step := by ring
  rw [hmiddle]
  split
  · omega
  · split
    · rw [hnext]
      omega
    · rcases Nat.mod_two_eq_zero_or_one below with heven | hodd
      · rw [heven, Nat.add_zero]
        omega
      · rw [hodd, hnext]
        omega

theorem atCount_eq (i : Interval) (point : Int) (count : Nat) :
    i.atCount? point count =
      let up := 10 ^ ((count : Int) - point).toNat
      let step := Interval.denominator * 10 ^ (point - count).toNat
      let first := nearest (i.value * up) step
      let other := 2 * (i.value * up / step) + 1 - first
      if i.contains (first * step) up then some first
      else if i.contains (other * step) up then some other
      else none := rfl

/-- What is found at a count of digits lies in the interval. -/
theorem contains_of_atCount {i : Interval} {point : Int} {count c : Nat}
    (h : i.atCount? point count = some c) :
    i.contains (c * (Interval.denominator * 10 ^ (point - count).toNat))
      (10 ^ ((count : Int) - point).toNat) = true := by
  rw [atCount_eq] at h
  dsimp only at h
  split at h
  · next hinside =>
    rw [← Option.some.inj h]
    exact hinside
  · split at h
    · next hinside =>
      rw [← Option.some.inj h]
      exact hinside
    · cases h

theorem contains_of_strict {i : Interval} {n k : Nat} (hlow : i.low * k < n)
    (hhigh : n < i.high * k) : i.contains n k = true := by
  unfold Interval.contains
  split
  · simp only [decide_eq_true_eq]
    exact ⟨le_of_lt hlow, le_of_lt hhigh⟩
  · simp only [decide_eq_true_eq]
    exact ⟨hlow, hhigh⟩

theorem significand_pos {rank : Nat} (h : 0 < rank) : 0 < rankSignificand rank := by
  unfold rankSignificand binade
  split <;> omega

theorem significand_lt (rank : Nat) : rankSignificand rank < 2 * binade := by
  unfold rankSignificand binade
  split <;> omega

/-- A number nearer to the value than half a step lies in the interval, when the step is at most
`10 ^ -16` of the value. -/
theorem contains_of_near {d : Double} {up step n : Nat} (hrank : 0 < d.rank) (hup : 0 < up)
    (hstep : step * 10 ^ 16 ≤ d.interval.value * up)
    (hbelow : 2 * n ≤ 2 * (d.interval.value * up) + step)
    (habove : 2 * (d.interval.value * up) ≤ 2 * n + step) : d.interval.contains n up = true := by
  have hvalue : d.interval.value = 4 * rankSignificand d.rank * 2 ^ rankScale d.rank := rfl
  have hhigh : d.interval.high = (4 * rankSignificand d.rank + 2) * 2 ^ rankScale d.rank := rfl
  have hlow : d.interval.low = (4 * rankSignificand d.rank -
      if rankSignificand d.rank = binade ∧ 0 < rankScale d.rank then 1 else 2) *
        2 ^ rankScale d.rank := rfl
  have hpos := significand_pos hrank
  have hlt := significand_lt d.rank
  rw [hvalue] at hstep hbelow habove
  generalize rankSignificand d.rank = m at hstep hbelow habove hhigh hlow hpos hlt
  have hpower : 0 < 2 ^ rankScale d.rank * up := Nat.mul_pos (Nat.two_pow_pos _) hup
  generalize 2 ^ rankScale d.rank = power at hstep hbelow habove hhigh hlow hpower
  have hmid : 4 * m * power * up = 4 * (m * (power * up)) := by ring
  have hupper : d.interval.high * up = 4 * (m * (power * up)) + 2 * (power * up) := by
    rw [hhigh]
    ring
  rw [hmid] at hstep hbelow habove
  have hmost : m * (power * up) ≤ (2 * binade - 1) * (power * up) :=
    Nat.mul_le_mul_right _ (by omega)
  have hbinade : binade = 4503599627370496 := rfl
  rw [hbinade] at hmost hlow
  apply contains_of_strict
  · split at hlow
    · next hleast =>
      have hlower : d.interval.low * up + power * up = 4 * (m * (power * up)) := by
        obtain ⟨k, hk⟩ : ∃ k, 4 * m = k + 1 := ⟨4 * m - 1, by omega⟩
        rw [hlow, hk, Nat.add_sub_cancel]
        calc k * power * up + power * up = (k + 1) * (power * up) := by ring
          _ = 4 * (m * (power * up)) := by rw [← hk]; ring
      have hleast' : m * (power * up) = 4503599627370496 * (power * up) := by rw [hleast.1]
      omega
    · have hlower : d.interval.low * up + 2 * (power * up) = 4 * (m * (power * up)) := by
        obtain ⟨k, hk⟩ : ∃ k, 4 * m = k + 2 := ⟨4 * m - 2, by omega⟩
        rw [hlow, hk, Nat.add_sub_cancel]
        calc k * power * up + 2 * (power * up) = (k + 2) * (power * up) := by ring
          _ = 4 * (m * (power * up)) := by rw [← hk]; ring
      omega
  · omega

theorem found_at_seventeen {d : Double} (hrank : 0 < d.rank) :
    (d.interval.atCount? d.interval.point 17).isSome = true := by
  have hvalue : 0 < d.interval.value :=
    Nat.mul_pos (Nat.mul_pos (by decide) (significand_pos hrank)) (Nat.two_pow_pos _)
  have hstep := step_le_value hvalue
  have hpos : 0 < Interval.denominator * 10 ^ (d.interval.point - (17 : Nat)).toNat :=
    Nat.mul_pos denominator_pos (Nat.pow_pos (by decide))
  obtain ⟨hbelow, habove⟩ :=
    nearest_within (n := d.interval.value * 10 ^ (((17 : Nat) : Int) - d.interval.point).toNat) hpos
  rw [atCount_eq]
  dsimp only
  rw [if_pos (contains_of_near hrank (Nat.pow_pos (by decide)) hstep hbelow habove)]
  rfl

end Rulebook.Double
