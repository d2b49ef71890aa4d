import Rulebook.Comparison
import Rulebook.Proofs.WholeRounding

/-!
# Numbers of one value

A whole number and a double may have the same value, as `1` and `1.0` do. The two are compared with
any third number alike, unless the third is another whole number that has the same double: a whole
number is told apart from it, and the double is not.
-/
namespace Rulebook

namespace Double

variable {d e : Double} {n : Nat}

/-- How many times the least magnitude makes the magnitude with a rank. -/
def rankSteps (rank : Nat) : Nat := rankSignificand rank * 2 ^ rankScale rank

def steps (d : Double) : Int := if d.negative then -(rankSteps d.rank : Int) else rankSteps d.rank

theorem rankSteps_zero : rankSteps 0 = 0 := rfl

theorem rankSteps_lt_succ (rank : Nat) : rankSteps rank < rankSteps (rank + 1) := by
  unfold rankSteps
  have hpow : 0 < 2 ^ rankScale rank := Nat.two_pow_pos _
  rcases rank_succ rank with ⟨hsig, hscale, -⟩ | ⟨hsig, hlast, hscale⟩
  · rw [hsig, hscale]
    exact Nat.mul_lt_mul_of_pos_right (Nat.lt_succ_self _) hpow
  · rw [hsig, hscale, Nat.pow_succ, Nat.mul_comm (2 ^ rankScale rank) 2, ← Nat.mul_assoc]
    exact Nat.mul_lt_mul_of_pos_right (by omega) hpow

theorem rankSteps_strictMono : StrictMono rankSteps := strictMono_nat_of_lt_succ rankSteps_lt_succ

theorem steps_eq_iff : d.steps = e.steps ↔ d.key = e.key := by
  have hinj : rankSteps d.rank = rankSteps e.rank ↔ d.rank = e.rank :=
    rankSteps_strictMono.injective.eq_iff
  have hzero : ∀ rank, rankSteps rank = 0 ↔ rank = 0 := fun rank =>
    rankSteps_strictMono.injective.eq_iff' rankSteps_zero
  have hd := hzero d.rank
  have he := hzero e.rank
  unfold steps key
  split <;> split <;> omega

/-- The value of a rank rounds to that rank. -/
theorem roundsTo_rankSteps (rank : Nat) : RoundsTo (4 * rankSteps rank) 1 rank := by
  have hparts : rankSignificand rank < 2 * binade ∧
      (rankScale rank = 0 ∨ binade ≤ rankSignificand rank) ∧
      rankScale rank * binade + rankSignificand rank = rank := by
    unfold rankSignificand rankScale binade
    split <;> omega
  obtain ⟨hsig, hscale, hrank⟩ := hparts
  have hsteps : rankSteps rank = rankSignificand rank * (2 ^ rankScale rank * 1) := by
    rw [Nat.mul_one, rankSteps]
  have hnear := roundsTo_of_near (n := rankSteps rank) Nat.one_pos hscale hsig
  rw [hrank] at hnear
  have hpow : 0 < 2 ^ rankScale rank := Nat.two_pow_pos _
  refine hnear (fun hpos => ?_) (by omega) (by omega) (fun _ => by omega)
  have hfour : 4 * rankSteps rank = 4 * rankSignificand rank * (2 ^ rankScale rank * 1) := by
    rw [hsteps, Nat.mul_assoc]
  rw [hfour]
  exact Nat.mul_le_mul_right _ (by omega)

theorem rankOfRatio_of_steps {rank : Nat} (h : rankSteps rank = n * unit) :
    rankOfRatio n 1 = rank := by
  have hvalue : n * Interval.denominator * 1 = 4 * rankSteps rank * 1 := by
    rw [h]
    exact congrArg (· * 1) (Nat.mul_left_comm n 4 unit)
  exact (rankOfRatio_roundsTo Nat.one_pos).rank_eq (roundsTo_rankSteps rank) Nat.one_pos
    Nat.one_pos hvalue

/-- An integer of up to 53 binary digits is the value of a double. -/
theorem exists_rankSteps (hn : n < 9007199254740992) : ∃ rank, rankSteps rank = n * unit := by
  rcases Nat.eq_zero_or_pos n with rfl | hpos
  · exact ⟨0, by rw [rankSteps_zero, Nat.zero_mul]⟩
  · obtain ⟨hlow, hhigh⟩ := (Nat.log2_eq_iff (Nat.ne_of_gt hpos)).mp rfl
    have hlog : n.log2 ≤ 52 := by
      have hless : 2 ^ n.log2 < 2 ^ 53 := Nat.lt_of_le_of_lt hlow hn
      have := (Nat.pow_lt_pow_iff_right (by decide)).mp hless
      omega
    obtain ⟨k, hk, hunit⟩ := unit_eq_pow
    generalize n.log2 = l at hlow hhigh hlog
    have hbinade : binade = 2 ^ l * 2 ^ (52 - l) := by
      rw [← Nat.pow_add, show l + (52 - l) = 52 by omega]
      rfl
    have hleast : binade ≤ n * 2 ^ (52 - l) := by
      rw [hbinade]
      exact Nat.mul_le_mul_right _ hlow
    have hmost : n * 2 ^ (52 - l) < 2 * binade := by
      rw [hbinade, ← Nat.mul_assoc, ← Nat.pow_succ']
      exact Nat.mul_lt_mul_of_pos_right hhigh (Nat.two_pow_pos _)
    obtain ⟨hsig, hscale⟩ := @rank_parts (l + 1022) _ hmost (.inr hleast)
    refine ⟨(l + 1022) * binade + n * 2 ^ (52 - l), ?_⟩
    have hexponent : 52 - l + (l + 1022) = k := by omega
    rw [rankSteps, hsig, hscale, Nat.mul_assoc, ← Nat.pow_add, hexponent, hunit]

/-- No other integer rounds to the double of an integer of up to 53 binary digits. -/
theorem rankOfRatio_inj_of_small {m : Nat} (hn : n < 9007199254740992)
    (h : rankOfRatio m 1 = rankOfRatio n 1) : m = n := by
  rcases Nat.lt_or_ge m 9007199254740992 with hm | hm
  · obtain ⟨rank, hrank⟩ := exists_rankSteps hm
    obtain ⟨rank', hrank'⟩ := exists_rankSteps hn
    rw [rankOfRatio_of_steps hrank, rankOfRatio_of_steps hrank'] at h
    subst h
    exact Nat.eq_of_mul_eq_mul_right unit_pos (hrank.symm.trans hrank')
  · have hedge : rankOfRatio 9007199254740991 1 < rankOfRatio 9007199254740992 1 := by
      decide +kernel
    have hbelow := rankOfRatio_mono (show n ≤ 9007199254740991 by omega)
    have habove := rankOfRatio_mono hm
    omega

/-- A double is the nearest one to its own value. -/
theorem key_ofInt_of_steps {k : Int} (hk : k.natAbs ≤ 18446744073709551616)
    (h : d.steps = k * unit) : (ofInt k).key = d.key := by
  have hunit := unit_pos
  have hsteps : rankSteps d.rank = k.natAbs * unit := by
    have habs := congrArg Int.natAbs h
    rw [Int.natAbs_mul, Int.natAbs_natCast] at habs
    rw [← habs, steps]
    split <;> omega
  have hzero : rankSteps d.rank = 0 ↔ d.rank = 0 :=
    rankSteps_strictMono.injective.eq_iff' rankSteps_zero
  rw [key_ofInt hk, rankOfRatio_of_steps hsteps, key]
  rw [steps] at h
  rcases lt_trichotomy k 0 with hneg | rfl | hpos
  · have hproduct : k * unit < 0 := mul_neg_of_neg_of_pos hneg (by exact_mod_cast hunit)
    have hsign : d.negative = true := by
      by_contra hnot
      rw [if_neg hnot] at h
      omega
    rw [if_pos hneg, if_pos hsign]
  · rw [Int.natAbs_zero, Nat.zero_mul, hzero] at hsteps
    simp [hsteps]
  · have hproduct : 0 < k * unit := mul_pos hpos (by exact_mod_cast hunit)
    have hsign : ¬ d.negative = true := by
      intro hnegative
      rw [if_pos hnegative] at h
      omega
    rw [if_neg (by omega), if_neg hsign]

end Double

/-- Two integers that fit 64 bits with a sign have the same double. -/
def Whole.Crowded (m : Whole) : Prop :=
  fitsSigned m.value = true ∧
    ∃ other, fitsSigned other = true ∧ other ≠ m.value ∧
      (Double.ofInt other).key = (Double.ofInt m.value).key

theorem Whole.natAbs_le (m : Whole) : m.value.natAbs ≤ 18446744073709551616 := by
  have := m.lower
  have := m.upper
  omega

/-- An integer of up to 53 binary digits has its double for itself. -/
theorem Whole.not_crowded_of_small {m : Whole} (hm : m.value.natAbs < 9007199254740992) :
    ¬ m.Crowded := by
  rintro ⟨-, other, hother, hne, hkey⟩
  have hfits := fitsSigned_iff.mp hother
  have hzero : ∀ n, Double.rankOfRatio n 1 = 0 → n = 0 := fun n hn =>
    Double.rankOfRatio_inj_of_small (by decide) (hn.trans Double.rankOfRatio_zero.symm)
  have hother' := hzero other.natAbs
  have hm' := hzero m.value.natAbs
  have hsame := Double.rankOfRatio_inj_of_small (m := other.natAbs) hm
  rw [Double.key_ofInt (by omega), Double.key_ofInt m.natAbs_le] at hkey
  split at hkey <;> split at hkey <;> omega

namespace Number

variable {a b c : Number}

/-- The value in steps of the least magnitude of a double. -/
def steps : Number → Int
  | whole m => m.value * Double.unit
  | double d => d.steps

theorem compare_eq_iff :
    a.compare b = .eq ↔
      match a.signed?, b.signed? with
      | some x, some y => x = y
      | _, _ => a.toDouble.key = b.toDouble.key := by
  unfold compare
  cases a.signed? <;> cases b.signed? <;> exact Std.LawfulEqOrd.compare_eq_iff_eq

theorem compare_eq_comm : a.compare b = .eq ↔ b.compare a = .eq := by
  rw [compare_eq_iff, compare_eq_iff]
  cases a.signed? <;> cases b.signed? <;> exact eq_comm

theorem compare_double_iff {d : Double} :
    (double d).compare c = .eq ↔ d.key = c.toDouble.key := by
  rw [compare_eq_iff]
  rfl

theorem signed?_eq_some_iff {x : Int} :
    c.signed? = some x ↔ ∃ n, c = whole n ∧ n.value = x ∧ fitsSigned n.value = true := by
  cases c with
  | double d => simp [signed?]
  | whole n => simp [signed?, and_comm]

/-- An integer and the double of its value are told apart by an integer with the same double. -/
theorem swappable_whole_double {m : Whole} {d : Double} (h : d.steps = m.value * Double.unit) :
    (∀ c, (whole m).compare c = .eq ↔ (double d).compare c = .eq) ↔ ¬ m.Crowded := by
  have hkey := Double.key_ofInt_of_steps m.natAbs_le h
  constructor
  · rintro hswap ⟨hm, other, hother, hne, hsame⟩
    have hbounds := fitsSigned_iff.mp hother
    have hexact := hswap (whole ⟨other, hbounds.1, by omega⟩)
    rw [compare_double_iff, compare_eq_iff] at hexact
    simp only [signed?, hm, hother, if_true, toDouble] at hexact
    exact hne (hexact.mpr (hkey.symm.trans hsame.symm)).symm
  · intro hcrowded c
    rw [compare_double_iff, compare_eq_iff, ← hkey]
    cases hm : (whole m).signed? with
    | none => rfl
    | some x =>
      cases hc : c.signed? with
      | none => rfl
      | some y =>
        obtain ⟨_, ⟨⟩, rfl, hfits⟩ := signed?_eq_some_iff.mp hm
        obtain ⟨n, rfl, rfl, hfits'⟩ := signed?_eq_some_iff.mp hc
        constructor
        · intro hsame
          exact congrArg (fun k => (Double.ofInt k).key) hsame
        · intro hsame
          by_contra hne
          exact hcrowded ⟨hfits, n.value, hfits', fun heq => hne heq.symm, hsame.symm⟩

theorem steps_whole_iff {m n : Whole} : (whole m).steps = (whole n).steps ↔ m.value = n.value :=
  mul_left_inj' (by exact_mod_cast Nat.ne_of_gt Double.unit_pos)

/-- The two differ in form, and the integer among them has a crowded double. -/
def Tells : Number → Number → Prop
  | .whole m, .double _ | .double _, .whole m => m.Crowded
  | .whole _, .whole _ | .double _, .double _ => False

/-- Two numbers of one value are equal to the same numbers, unless they differ in form and the
integer among them has a crowded double. -/
theorem swappable_iff (h : a.steps = b.steps) :
    (∀ c, a.compare c = .eq ↔ b.compare c = .eq) ↔ ¬ a.Tells b := by
  cases a with
  | whole m =>
    cases b with
    | whole n =>
      have hvalue := steps_whole_iff.mp h
      have hsame : m = n := by
        cases m
        cases n
        cases hvalue
        rfl
      simp [Tells, hsame]
    | double d => exact swappable_whole_double h.symm
  | double d =>
    cases b with
    | whole m =>
      rw [Tells, ← swappable_whole_double h]
      exact forall_congr' fun _ => iff_comm
    | double e =>
      have hkey := Double.steps_eq_iff.mp h
      simp only [compare_double_iff, hkey, Tells, implies_true, not_false_eq_true]

theorem same_iff : a.same b = true ↔ a.isWhole = b.isWhole ∧ a.steps = b.steps := by
  cases a with
  | whole m =>
    cases b with
    | whole n => simp [same, isWhole, steps_whole_iff]
    | double e => simp [same, isWhole]
  | double d =>
    cases b with
    | whole n => simp [same, isWhole]
    | double e => simp [same, isWhole, steps, Double.steps_eq_iff]

theorem same_left (h : a.same b = true) : a.same c = b.same c := by
  obtain ⟨hform, hsteps⟩ := same_iff.mp h
  rw [Bool.eq_iff_iff, same_iff, same_iff, hform, hsteps]

/-- Numbers of one form and value are equal to the same numbers. -/
theorem compare_eq_of_same (h : a.same b = true) : a.compare c = .eq ↔ b.compare c = .eq := by
  obtain ⟨hform, hsteps⟩ := same_iff.mp h
  refine (swappable_iff hsteps).mpr ?_ c
  cases a <;> cases b <;> simp [isWhole] at hform <;> simp [Tells]

theorem compare_self : a.compare a = .eq := by
  rw [compare_eq_iff]
  cases a.signed? <;> rfl

end Number

end Rulebook
