import Mathlib.Order.Compare
import Rulebook.Number
import Rulebook.Proofs.NearestRank

/-!
# Integers as doubles

An integer stands between two doubles, and becomes the nearer one. Where it has more than 53 binary
digits the doubles around it lie a power of two apart, so it is rounded to a multiple of that power.
Rounding keeps the order of integers, though it may make two of them equal.
-/
namespace Rulebook.Double

variable {m n : Nat}

theorem log2_units (hn : n ≠ 0) : (n * unit).log2 = n.log2 + 1074 := by
  obtain ⟨k, hk, hunit⟩ := unit_eq_pow
  obtain ⟨hlow, hhigh⟩ := (Nat.log2_eq_iff hn).mp rfl
  rw [Nat.log2_eq_iff (Nat.mul_ne_zero hn (Nat.ne_of_gt unit_pos)), ← hk]
  constructor
  · rw [Nat.pow_add, ← hunit]
    exact Nat.mul_le_mul_right _ hlow
  · rw [Nat.add_right_comm, Nat.pow_add, ← hunit]
    exact Nat.mul_lt_mul_of_pos_right hhigh unit_pos

theorem roundDiv_scale (n d : Nat) {c : Nat} (hc : 0 < c) :
    roundDiv (n * c) (d * c) = roundDiv n d := by
  have hdouble : 2 * (n % d * c) = 2 * (n % d) * c := (Nat.mul_assoc ..).symm
  have hlow : 2 * (n % d) * c < d * c ↔ 2 * (n % d) < d := Nat.mul_lt_mul_right hc
  have hhigh : d * c < 2 * (n % d) * c ↔ d < 2 * (n % d) := Nat.mul_lt_mul_right hc
  unfold roundDiv
  dsimp only
  rw [Nat.mul_div_mul_right _ _ hc, Nat.mul_mod_mul_right, hdouble]
  simp only [hlow, hhigh]

/-- An integer of 53 binary digits or more is rounded to a multiple of a power of two. -/
theorem rankOfRatio_whole (hn : 52 ≤ n.log2) :
    rankOfRatio n 1 = (n.log2 + 1022) * binade + roundDiv n (2 ^ (n.log2 - 52)) := by
  have hpos : n ≠ 0 := by
    rintro rfl
    rw [Nat.log2_zero] at hn
    omega
  have hscale : (n * unit / 1).log2 - 52 = n.log2 + 1022 := by
    rw [Nat.div_one, log2_units hpos]
    omega
  have hstep : 1 * Nat.pow 2 (n.log2 + 1022) = 2 ^ (n.log2 - 52) * unit := by
    obtain ⟨k, hk, hunit⟩ := unit_eq_pow
    have hexponent : n.log2 + 1022 = n.log2 - 52 + k := by omega
    rw [Nat.one_mul, Nat.pow_eq, hunit, hexponent, Nat.pow_add]
  unfold rankOfRatio
  dsimp only
  rw [hscale, hstep, roundDiv_scale _ _ unit_pos]

theorem rankOfRatio_mono (h : m ≤ n) : rankOfRatio m 1 ≤ rankOfRatio n 1 := by
  by_contra hless
  have hrank : rankOfRatio n 1 < rankOfRatio m 1 := by omega
  have hvalue := (rankOfRatio_roundsTo Nat.one_pos).lt_of_rank_lt
    (rankOfRatio_roundsTo Nat.one_pos) Nat.one_pos Nat.one_pos hrank
  have hle := Nat.mul_le_mul_right Interval.denominator h
  omega

theorem rankOfRatio_zero : rankOfRatio 0 1 = 0 := by
  simp [rankOfRatio, roundDiv]

/-- No integer of 64 bits is beyond the finite doubles. -/
theorem rankOfRatio_lt_limit (hn : n ≤ 18446744073709551616) : rankOfRatio n 1 < rankLimit := by
  have htop : rankOfRatio 18446744073709551616 1 < rankLimit := by decide +kernel
  exact Nat.lt_of_le_of_lt (rankOfRatio_mono hn) htop

theorem key_ofInt {k : Int} (hk : k.natAbs ≤ 18446744073709551616) :
    (ofInt k).key = if k < 0 then -(rankOfRatio k.natAbs 1 : Int) else rankOfRatio k.natAbs 1 := by
  have hlimit := rankOfRatio_lt_limit hk
  have hrank : (ofInt k).rank = rankOfRatio k.natAbs 1 := by
    change min (rankOfRatio k.natAbs 1) (rankLimit - 1) = _
    omega
  have hsign : (ofInt k).negative = decide (k < 0) := rfl
  rw [key, hrank, hsign]
  simp only [decide_eq_true_eq]

theorem key_ofInt_mono {j k : Int} (hj : j.natAbs ≤ 18446744073709551616)
    (hk : k.natAbs ≤ 18446744073709551616) (h : j ≤ k) : (ofInt j).key ≤ (ofInt k).key := by
  rw [key_ofInt hj, key_ofInt hk]
  split
  · split
    · have := rankOfRatio_mono (show k.natAbs ≤ j.natAbs by omega)
      omega
    · omega
  · rw [if_neg (by omega)]
    have := rankOfRatio_mono (show j.natAbs ≤ k.natAbs by omega)
    omega

/-- Two integers compare as their doubles do, unless those are the same. -/
theorem compare_key_ofInt {j k : Int} (hj : j.natAbs ≤ 18446744073709551616)
    (hk : k.natAbs ≤ 18446744073709551616) (hne : (ofInt j).key ≠ (ofInt k).key) :
    compare (ofInt j).key (ofInt k).key = compare j k := by
  rcases lt_trichotomy j k with hlt | rfl | hgt
  · have hle := key_ofInt_mono hj hk hlt.le
    rw [Int.compare_eq_lt.mpr hlt, Int.compare_eq_lt.mpr (by omega)]
  · exact absurd rfl hne
  · have hle := key_ofInt_mono hk hj hgt.le
    rw [Int.compare_eq_gt.mpr hgt, Int.compare_eq_gt.mpr (by omega)]

end Rulebook.Double
