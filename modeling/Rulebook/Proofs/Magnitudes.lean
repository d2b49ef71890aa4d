import Mathlib.Tactic.Linarith
import Mathlib.Tactic.Ring
import Rulebook.Number.Shortest

/-!
# Numbers that round to a double

The numbers that round to a double lie between two boundaries, one below its rank and one above it.
A boundary that two neighbours share belongs to at most one of them, so that no number rounds to
two doubles of one sign. Nothing here depends on how doubles are written.
-/
namespace Rulebook.Double

/-- The significand of the magnitude with a rank. -/
def rankSignificand (rank : Nat) : Nat := if rank < binade then rank else binade + rank % binade

def rankScale (rank : Nat) : Nat := rank / binade - 1

/-- Halfway between the magnitudes of a rank and of the next one. -/
def boundary (rank : Nat) : Nat := (4 * rankSignificand rank + 2) * 2 ^ rankScale rank

/-- The next rank has the next significand, or it starts over at twice the scale. -/
theorem rank_succ (rank : Nat) :
    (rankSignificand (rank + 1) = rankSignificand rank + 1 ∧
      rankScale (rank + 1) = rankScale rank ∧
      ¬ (rankSignificand (rank + 1) = binade ∧ 0 < rankScale (rank + 1))) ∨
    (rankSignificand (rank + 1) = binade ∧ rankSignificand rank + 1 = 2 * binade ∧
      rankScale (rank + 1) = rankScale rank + 1) := by
  unfold rankSignificand rankScale binade
  split <;> split <;> omega

theorem boundary_lt_succ (rank : Nat) : boundary rank < boundary (rank + 1) := by
  unfold boundary
  have hpow : 0 < 2 ^ rankScale rank := Nat.two_pow_pos _
  rcases rank_succ rank with ⟨hsig, hscale, -⟩ | ⟨hsig, hlast, hscale⟩
  · rw [hsig, hscale]
    exact Nat.mul_lt_mul_of_pos_right (by omega) hpow
  · rw [hsig, hscale, Nat.pow_succ]
    have hdouble : (4 * binade + 2) * (2 ^ rankScale rank * 2) =
        (8 * binade + 4) * 2 ^ rankScale rank := by ring
    rw [hdouble]
    exact Nat.mul_lt_mul_of_pos_right (by omega) hpow

theorem boundary_strictMono {a b : Nat} (h : a < b) : boundary a < boundary b := by
  induction b with
  | zero => omega
  | succ b ih =>
    rcases Nat.lt_or_eq_of_le (Nat.le_of_lt_succ h) with hlt | rfl
    · exact lt_trans (ih hlt) (boundary_lt_succ b)
    · exact boundary_lt_succ a

theorem interval_high (d : Double) : d.interval.high = boundary d.rank := rfl

theorem interval_low {d : Double} {rank : Nat} (h : d.rank = rank + 1) :
    d.interval.low = boundary rank := by
  have hlow : d.interval.low =
      (4 * rankSignificand d.rank -
        if rankSignificand d.rank = binade ∧ 0 < rankScale d.rank then 1 else 2) *
        2 ^ rankScale d.rank := rfl
  rw [hlow, h]
  unfold boundary
  rcases rank_succ rank with ⟨hsig, hscale, hsame⟩ | ⟨hsig, hlast, hscale⟩
  · rw [if_neg hsame, hsig, hscale]
    congr 1
  · rw [if_pos ⟨hsig, by omega⟩, hsig, hscale, Nat.pow_succ]
    have hsplit : 4 * rankSignificand rank + 2 = (4 * binade - 1) * 2 := by omega
    rw [hsplit]
    ring

/-- The significand is even exactly when the rank is. -/
theorem interval_closed (d : Double) : d.interval.closed = decide (d.rank % 2 = 0) := by
  have hclosed : d.interval.closed = decide (rankSignificand d.rank % 2 = 0) := rfl
  have hparity : rankSignificand d.rank % 2 = d.rank % 2 := by
    unfold rankSignificand binade
    split <;> omega
  rw [hclosed, hparity]

theorem contains_bounds {i : Interval} {n k : Nat} (h : i.contains n k = true) :
    i.low * k ≤ n ∧ n ≤ i.high * k := by
  unfold Interval.contains at h
  split at h
  · simpa using h
  · have hstrict : i.low * k < n ∧ n < i.high * k := by simpa using h
    omega

theorem contains_strict {i : Interval} {n k : Nat} (h : i.contains n k = true)
    (hclosed : i.closed = false) : i.low * k < n ∧ n < i.high * k := by
  unfold Interval.contains at h
  rw [if_neg (by simp [hclosed])] at h
  simpa using h

/-- The number `n / k`, over the common denominator, lies between the boundaries of the rank. The
boundaries themselves belong to even ranks. -/
structure RoundsTo (n k rank : Nat) : Prop where
  le_high : n ≤ boundary rank * k
  lt_high : rank % 2 = 1 → n < boundary rank * k
  low_le : ∀ below, rank = below + 1 → boundary below * k ≤ n
  low_lt : ∀ below, rank = below + 1 → rank % 2 = 1 → boundary below * k < n

theorem roundsTo_of_contains {d : Double} {n k : Nat} (h : d.interval.contains n k = true) :
    RoundsTo n k d.rank := by
  have hbounds := contains_bounds h
  have hstrict : d.rank % 2 = 1 → d.interval.low * k < n ∧ n < d.interval.high * k := by
    intro hodd
    refine contains_strict h ?_
    rw [interval_closed]
    exact decide_eq_false (by omega)
  rw [interval_high] at hbounds hstrict
  refine ⟨hbounds.2, fun hodd => (hstrict hodd).2, fun below hbelow => ?_,
    fun below hbelow hodd => ?_⟩
  · rw [← interval_low hbelow]
    exact hbounds.1
  · rw [← interval_low hbelow]
    exact (hstrict hodd).1

namespace RoundsTo

variable {n k rank n' k' rank' : Nat}

/-- A number with a smaller rank is smaller. -/
theorem lt_of_rank_lt (h : RoundsTo n k rank) (h' : RoundsTo n' k' rank') (hk : 0 < k)
    (hk' : 0 < k') (hlt : rank < rank') : n * k' < n' * k := by
  obtain ⟨below, hbelow⟩ : ∃ below, rank' = below + 1 := ⟨rank' - 1, by omega⟩
  have hupper : n * k' ≤ boundary rank * k * k' := Nat.mul_le_mul_right k' h.le_high
  have hlower : boundary below * k * k' ≤ n' * k := by
    calc boundary below * k * k' = boundary below * k' * k := by ring
      _ ≤ n' * k := Nat.mul_le_mul_right k (h'.low_le below hbelow)
  rcases Nat.lt_or_eq_of_le (show rank ≤ below by omega) with hless | heq
  · have hstep : boundary rank * k * k' < boundary below * k * k' :=
      Nat.mul_lt_mul_of_pos_right
        (Nat.mul_lt_mul_of_pos_right (boundary_strictMono hless) hk) hk'
    omega
  · -- The boundary is shared, and one of the two ranks is odd.
    rcases Nat.mod_two_eq_zero_or_one rank with heven | hodd
    · have habove : boundary below * k' * k < n' * k :=
        Nat.mul_lt_mul_of_pos_right (h'.low_lt below hbelow (by omega)) hk
      have hcomm : boundary below * k' * k = boundary rank * k * k' := by rw [heq]; ring
      omega
    · have hunder : n * k' < boundary rank * k * k' :=
        Nat.mul_lt_mul_of_pos_right (h.lt_high hodd) hk'
      rw [heq] at hunder
      omega

/-- No number rounds to two ranks. -/
theorem rank_eq (h : RoundsTo n k rank) (h' : RoundsTo n' k' rank') (hk : 0 < k) (hk' : 0 < k')
    (hsame : n * k' = n' * k) : rank = rank' := by
  have hle := mt (h.lt_of_rank_lt h' hk hk') (by omega)
  have hge := mt (h'.lt_of_rank_lt h hk' hk) (by omega)
  omega

end RoundsTo

theorem rank_eq_of_contains {d e : Double} {n k n' k' : Nat} (hd : d.interval.contains n k = true)
    (he : e.interval.contains n' k' = true) (hk : 0 < k) (hk' : 0 < k') (hsame : n * k' = n' * k) :
    d.rank = e.rank :=
  (roundsTo_of_contains hd).rank_eq (roundsTo_of_contains he) hk hk' hsame

end Rulebook.Double
