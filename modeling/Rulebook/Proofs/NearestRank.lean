import Rulebook.Proofs.NumberText

/-!
# The nearest rank

The rank that is found for a quotient is the one that the quotient rounds to. What is written for a
double therefore rounds to that double, whatever digits and exponent its value is given by.
-/
namespace Rulebook.Double

theorem roundDiv_spec {n d : Nat} (hd : 0 < d) :
    n / d ≤ roundDiv n d ∧ roundDiv n d ≤ n / d + 1 ∧
      2 * (roundDiv n d * d) ≤ 2 * n + d ∧ 2 * n ≤ 2 * (roundDiv n d * d) + d ∧
      (roundDiv n d % 2 = 1 →
        2 * (roundDiv n d * d) < 2 * n + d ∧ 2 * n < 2 * (roundDiv n d * d) + d) := by
  have hsplit : n / d * d + n % d = n := Nat.div_add_mod' n d
  have hrest : n % d < d := Nat.mod_lt n hd
  unfold roundDiv
  dsimp only
  generalize n / d = q at hsplit ⊢
  generalize n % d = r at hsplit hrest ⊢
  have hnext : (q + 1) * d = q * d + d := Nat.succ_mul q d
  split
  · omega
  · split
    · rw [hnext]
      omega
    · rcases Nat.mod_two_eq_zero_or_one q with heven | hodd
      · rw [heven, Nat.add_zero]
        omega
      · rw [hodd, hnext]
        omega

/-- The scale leaves 53 binary digits before the point, or it is zero. -/
theorem quotient_bounds (t : Nat) :
    t / 2 ^ (t.log2 - 52) < 2 * binade ∧ (t.log2 - 52 = 0 ∨ binade ≤ t / 2 ^ (t.log2 - 52)) := by
  have hbinade : binade = 2 ^ 52 := by decide
  constructor
  · rw [Nat.div_lt_iff_lt_mul (Nat.two_pow_pos _), hbinade, ← Nat.pow_succ', ← Nat.pow_add]
    exact Nat.lt_of_lt_of_le Nat.lt_log2_self (Nat.pow_le_pow_right (by decide) (by omega))
  · rcases Nat.eq_zero_or_pos (t.log2 - 52) with hzero | hpos
    · exact .inl hzero
    · refine .inr ?_
      have ht : t ≠ 0 := by
        rintro rfl
        rw [Nat.log2_zero] at hpos
        omega
      rw [Nat.le_div_iff_mul_le (Nat.two_pow_pos _), hbinade, ← Nat.pow_add]
      refine Nat.le_trans (Nat.pow_le_pow_right (by decide) ?_) (Nat.log2_self_le ht)
      omega

theorem rank_parts {scale m : Nat} (hm : m < 2 * binade) (hscale : scale = 0 ∨ binade ≤ m) :
    rankSignificand (scale * binade + m) = m ∧ rankScale (scale * binade + m) = scale := by
  unfold rankSignificand rankScale
  unfold binade at *
  split <;> omega

/-- The boundary below a rank, by the significand and the scale of that rank. -/
theorem boundary_below (below : Nat) :
    boundary below = (4 * rankSignificand (below + 1) - 2) * 2 ^ rankScale (below + 1) ∨
      rankSignificand (below + 1) = binade ∧ rankScale (below + 1) ≠ 0 ∧
        2 * boundary below = (8 * binade - 2) * 2 ^ rankScale (below + 1) := by
  unfold boundary
  rcases rank_succ below with ⟨hsig, hscale, -⟩ | ⟨hsig, hlast, hscale⟩
  · refine .inl ?_
    rw [hsig, hscale]
    congr 1
  · refine .inr ⟨hsig, by omega, ?_⟩
    have hsplit : 4 * rankSignificand below + 2 = 8 * binade - 2 := by omega
    rw [hsplit, hscale, Nat.pow_succ]
    ring

/-- What lies within half a step of a multiple of `2 ^ scale` rounds to the rank of the multiple. -/
theorem roundsTo_of_near {n k scale m : Nat} (hk : 0 < k) (hscale : scale = 0 ∨ binade ≤ m)
    (hm : m < 2 * binade) (hfloor : scale ≠ 0 → (4 * binade - 1) * (2 ^ scale * k) ≤ 4 * n)
    (hbelow : 2 * (m * (2 ^ scale * k)) ≤ 2 * n + 2 ^ scale * k)
    (habove : 2 * n ≤ 2 * (m * (2 ^ scale * k)) + 2 ^ scale * k)
    (hodd : m % 2 = 1 → 2 * (m * (2 ^ scale * k)) < 2 * n + 2 ^ scale * k ∧
      2 * n < 2 * (m * (2 ^ scale * k)) + 2 ^ scale * k) :
    RoundsTo (4 * n) k (scale * binade + m) := by
  obtain ⟨hsig, hexp⟩ := rank_parts hm hscale
  have hparity : (scale * binade + m) % 2 = m % 2 := by
    unfold binade
    omega
  have hstep : 0 < 2 ^ scale * k := Nat.mul_pos (Nat.two_pow_pos _) hk
  have hhigh : boundary (scale * binade + m) * k =
      4 * (m * (2 ^ scale * k)) + 2 * (2 ^ scale * k) := by
    rw [boundary, hsig, hexp]
    ring
  have hlow : ∀ below, scale * binade + m = below + 1 →
      boundary below * k + 2 * (2 ^ scale * k) = 4 * (m * (2 ^ scale * k)) ∨
        m % 2 = 0 ∧ boundary below * k ≤ 4 * n := by
    intro below hrank
    rw [hrank] at hsig hexp
    rcases boundary_below below with heq | ⟨hleast, hpos, heq⟩
    · refine .inl ?_
      have hmpos : m ≠ 0 := by
        rintro rfl
        rcases hscale with rfl | hle
        · omega
        · exact absurd hle (by decide)
      obtain ⟨c, hc⟩ : ∃ c, 4 * m = c + 2 := ⟨4 * m - 2, by omega⟩
      rw [heq, hsig, hexp, hc, Nat.add_sub_cancel]
      calc c * 2 ^ scale * k + 2 * (2 ^ scale * k) = (c + 2) * (2 ^ scale * k) := by ring
        _ = 4 * (m * (2 ^ scale * k)) := by rw [← hc]; ring
    · -- Steps are half as wide below this rank.
      rw [hexp] at hpos heq
      have hleast' := hfloor hpos
      have hwide : 2 * (boundary below * k) = (8 * binade - 2) * (2 ^ scale * k) := by
        rw [← Nat.mul_assoc, heq, Nat.mul_assoc]
      unfold binade at hleast hleast' hwide
      omega
  refine ⟨by omega, fun h => ?_, fun below hrank => ?_, fun below hrank h => ?_⟩
  · have := hodd (by omega)
    omega
  · have := hlow below hrank
    omega
  · have := hodd (by omega)
    have := hlow below hrank
    omega

theorem rankOfRatio_roundsTo {n k : Nat} (hk : 0 < k) :
    RoundsTo (n * Interval.denominator) k (rankOfRatio n k) := by
  have hunits : n * Interval.denominator = 4 * (n * unit) := Nat.mul_left_comm n 4 unit
  have hrank : rankOfRatio n k = ((n * unit / k).log2 - 52) * binade +
      roundDiv (n * unit) (k * 2 ^ ((n * unit / k).log2 - 52)) := rfl
  rw [hunits, hrank, Nat.mul_comm k]
  generalize n * unit = units
  obtain ⟨hless, hfirst⟩ := quotient_bounds (units / k)
  rw [Nat.div_div_eq_div_mul, Nat.mul_comm k] at hless hfirst
  generalize (units / k).log2 - 52 = scale at hless hfirst ⊢
  have hstep : 0 < 2 ^ scale * k := Nat.mul_pos (Nat.two_pow_pos _) hk
  obtain ⟨hfloor, hceil, hbelow, habove, hodd⟩ := roundDiv_spec (n := units) hstep
  have hunder : units / (2 ^ scale * k) * (2 ^ scale * k) ≤ units := Nat.div_mul_le_self _ _
  generalize roundDiv units (2 ^ scale * k) = m at hfloor hceil hbelow habove hodd ⊢
  generalize units / (2 ^ scale * k) = q at hless hfirst hfloor hceil hunder
  rcases Nat.lt_or_ge m (2 * binade) with hm | hm
  · refine roundsTo_of_near hk (by omega) hm (fun hpos => ?_) hbelow habove hodd
    have hleast : binade * (2 ^ scale * k) ≤ q * (2 ^ scale * k) :=
      Nat.mul_le_mul_right _ (by omega)
    unfold binade at hleast ⊢
    omega
  · -- The quotient is rounded up to the first significand of the next scale.
    obtain rfl : m = 2 * binade := by omega
    have hnext : scale * binade + 2 * binade = (scale + 1) * binade + binade := by ring
    have hdouble : 2 ^ (scale + 1) * k = 2 * (2 ^ scale * k) := by ring
    rw [hnext]
    unfold binade at hbelow habove
    refine roundsTo_of_near hk (.inr (Nat.le_refl _)) (by decide) (fun _ => ?_) ?_ ?_
      (fun h => absurd h (by decide)) <;>
    · rw [hdouble]
      unfold binade
      omega

attribute [local irreducible] Interval.denominator

/-- Digits and an exponent that give the value which is written for a double round to it. -/
theorem rankOfRatio_of_value {d : Double} {c : Nat} {place : Int} (hrank : 0 < d.rank)
    (hvalue : (c : ℚ) * 10 ^ place = d.shortest.value) :
    rankOfRatio (c * 10 ^ place.toNat) (10 ^ (-place).toNat) = d.rank := by
  obtain ⟨c', count, hcontains, hvalue'⟩ := shortest_value hrank
  have hten : ∀ n : Nat, 0 < 10 ^ n := fun n => Nat.pow_pos (by decide)
  have hrounds := rankOfRatio_roundsTo (n := c * 10 ^ place.toNat) (hten (-place).toNat)
  refine hrounds.rank_eq (roundsTo_of_contains hcontains) (hten _) (hten _) ?_
  have hneg : (count : Int) - d.interval.point = -(d.interval.point - count) := by omega
  have hcross := cross_eq Interval.denominator (hvalue.trans hvalue')
  rw [hneg, ← hcross]
  ring

end Rulebook.Double
