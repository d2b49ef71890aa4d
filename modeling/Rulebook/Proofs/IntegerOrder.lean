import Rulebook.Comparison
import Rulebook.Proofs.WholeRounding

/-!
# The order of integers

Two integers that fit 64 bits with a sign are compared as they are. If one of them needs the 64th
bit both are compared as doubles, and those lie 2048 apart there. `integers_compared` says which
pairs of integers are then taken for equal, and that all others compare as integers do.
-/
namespace Rulebook

namespace Double

variable {n : Nat}

theorem rank_top (hlow : 9223372036854775808 ≤ n) (hhigh : n < 18446744073709551616) :
    rankOfRatio n 1 = 1085 * binade + roundDiv n 2048 := by
  have hlog : n.log2 = 63 := (Nat.log2_eq_iff (by omega)).mpr ⟨by omega, by omega⟩
  rw [rankOfRatio_whole (by omega), hlog]
  rfl

theorem rank_below_top (hlow : 4611686018427387904 ≤ n) (hhigh : n < 9223372036854775808) :
    rankOfRatio n 1 = 1084 * binade + roundDiv n 1024 := by
  have hlog : n.log2 = 62 := (Nat.log2_eq_iff (by omega)).mpr ⟨by omega, by omega⟩
  rw [rankOfRatio_whole (by omega), hlog]
  rfl

theorem rank_low (hhigh : n < 4611686018427387904) : rankOfRatio n 1 ≤ 1085 * binade := by
  have htop : rankOfRatio 4611686018427387904 1 = 1085 * binade := by decide +kernel
  rw [← htop]
  exact rankOfRatio_mono (Nat.le_of_lt hhigh)

/-- Two integers of which one needs 64 bits, so that the doubles around it lie 2048 apart, with the
same multiple of 2048 nearest to both. Below `2 ^ 63` doubles lie closer to each other. -/
def Conflated (m n : Int) : Prop :=
  m ≠ n ∧ 9223372036854775296 ≤ m ∧ 9223372036854775296 ≤ n ∧
    (9223372036854775808 ≤ m ∨ 9223372036854775808 ≤ n) ∧
    roundDiv m.toNat 2048 = roundDiv n.toNat 2048

theorem Conflated.symm {m n : Int} (h : Conflated m n) : Conflated n m :=
  ⟨h.1.symm, h.2.2.1, h.2.1, h.2.2.2.1.symm, h.2.2.2.2.symm⟩

theorem conflated_comm {m n : Int} : Conflated m n ↔ Conflated n m := ⟨.symm, .symm⟩

theorem rank_eq_iff {m : Nat} (hm : m < 18446744073709551616) (hlow : 9223372036854775808 ≤ n)
    (hhigh : n < 18446744073709551616) :
    rankOfRatio m 1 = rankOfRatio n 1 ↔
      9223372036854775296 ≤ m ∧ roundDiv m 2048 = roundDiv n 2048 := by
  rw [rank_top hlow hhigh]
  obtain ⟨-, -, hn⟩ := roundDiv_spec (n := n) (d := 2048) (by decide)
  obtain ⟨-, -, hm'⟩ := roundDiv_spec (n := m) (d := 2048) (by decide)
  rcases Nat.lt_or_ge m 4611686018427387904 with hsmall | hlarge
  · have hrank := rank_low hsmall
    unfold binade at *
    omega
  · rcases Nat.lt_or_ge m 9223372036854775808 with hsigned | htop
    · -- The doubles around the smaller integer lie 1024 apart.
      rw [rank_below_top hlarge hsigned]
      obtain ⟨-, -, hm''⟩ := roundDiv_spec (n := m) (d := 1024) (by decide)
      unfold binade
      omega
    · rw [rank_top htop hm]
      omega

theorem key_eq_iff {m n : Whole} (htop : 9223372036854775808 ≤ n.value) :
    (ofInt m.value).key = (ofInt n.value).key ↔ m.value = n.value ∨ Conflated m.value n.value := by
  have hm := m.lower
  have hm' := m.upper
  have hn' := n.upper
  have hrank := rank_eq_iff (m := m.value.natAbs) (n := n.value.natAbs) (by omega) (by omega)
    (by omega)
  rw [key_ofInt (by omega), key_ofInt (by omega), if_neg (show ¬ n.value < 0 by omega)]
  rcases lt_or_ge m.value 0 with hneg | hpos
  · have htop' := rank_top (n := n.value.natAbs) (by omega) (by omega)
    unfold Conflated
    unfold binade at htop'
    rw [if_pos hneg]
    omega
  · have habs : ∀ {k : Int}, 0 ≤ k → k.natAbs = k.toNat := by omega
    rw [if_neg (by omega), Int.natCast_inj, hrank, habs hpos, habs (by omega)]
    unfold Conflated
    constructor
    · rintro ⟨hlow, hsame⟩
      by_cases heq : m.value = n.value
      · exact .inl heq
      · exact .inr ⟨heq, by omega, by omega, .inr htop, hsame⟩
    · rintro (heq | ⟨-, hlow, -, -, hsame⟩)
      · rw [heq]
        exact ⟨by omega, rfl⟩
      · exact ⟨by omega, hsame⟩

end Double

namespace Number

open Double (Conflated)

variable {m n : Whole}

theorem compare_of_signed (hm : fitsSigned m.value = true) (hn : fitsSigned n.value = true) :
    (whole m).compare (whole n) = Ord.compare m.value n.value := by
  simp [compare, signed?, hm, hn]

theorem compare_of_top (h : 9223372036854775808 ≤ m.value ∨ 9223372036854775808 ≤ n.value) :
    (whole m).compare (whole n) =
      Ord.compare (Double.ofInt m.value).key (Double.ofInt n.value).key := by
  have hfits : fitsSigned m.value = false ∨ fitsSigned n.value = false := by
    simp only [← Bool.not_eq_true, fitsSigned_iff]
    omega
  rcases hfits with hm | hn
  · simp [compare, signed?, toDouble, hm]
  · cases hm : fitsSigned m.value <;> simp [compare, signed?, toDouble, hm, hn]

/-- Where a double stands in for an integer, the order of the two is kept or lost. -/
theorem compare_wholes :
    (Conflated m.value n.value → (whole m).compare (whole n) = .eq) ∧
      (¬ Conflated m.value n.value → (whole m).compare (whole n) = Ord.compare m.value n.value) := by
  by_cases htop : 9223372036854775808 ≤ m.value ∨ 9223372036854775808 ≤ n.value
  · have hkeys : (Double.ofInt m.value).key = (Double.ofInt n.value).key ↔
        m.value = n.value ∨ Conflated m.value n.value := by
      rcases htop with hm | hn
      · rw [eq_comm, Double.key_eq_iff hm, eq_comm, Double.conflated_comm]
      · exact Double.key_eq_iff hn
    have hm : m.value.natAbs ≤ 18446744073709551616 := by
      have := m.lower
      have := m.upper
      omega
    have hn : n.value.natAbs ≤ 18446744073709551616 := by
      have := n.lower
      have := n.upper
      omega
    rw [compare_of_top htop]
    constructor
    · intro h
      rw [hkeys.mpr (.inr h)]
      exact Std.ReflOrd.compare_self
    · intro h
      by_cases heq : m.value = n.value
      · rw [heq, Std.ReflOrd.compare_self, Std.ReflOrd.compare_self]
      · refine Double.compare_key_ofInt hm hn fun hkey => ?_
        rcases hkeys.mp hkey with hsame | hconflated
        · exact heq hsame
        · exact h hconflated
  · have := m.lower
    have := n.lower
    constructor
    · intro h
      exact absurd h.2.2.2.1 htop
    · intro _
      exact compare_of_signed (fitsSigned_iff.mpr (by omega)) (fitsSigned_iff.mpr (by omega))

/-- Equality of the two numbers is equality of the integers, and their order is that of the
integers. -/
def ComparedExactly (m n : Whole) : Prop :=
  ((Json.number (whole m)).equal (.number (whole n)) = true ↔ m.value = n.value) ∧
    (Json.number (whole m)).compare (.number (whole n)) = .ok (Ord.compare m.value n.value)

/-- Two integers are compared exactly unless one of them needs 64 bits and both have the same
double. Then they are taken for equal. -/
theorem integers_compared (m n : Whole) :
    (ComparedExactly m n ↔ ¬ Conflated m.value n.value) ∧
      (Conflated m.value n.value →
        (Json.number (whole m)).equal (.number (whole n)) = true ∧
          (Json.number (whole m)).compare (.number (whole n)) = .ok .eq) := by
  have hequal : (Json.number (whole m)).equal (.number (whole n)) = true ↔
      (whole m).compare (whole n) = .eq := by
    simp [Json.equal]
  have hcompare : (Json.number (whole m)).compare (.number (whole n)) =
      .ok ((whole m).compare (whole n)) := rfl
  obtain ⟨hlost, hkept⟩ := compare_wholes (m := m) (n := n)
  unfold ComparedExactly
  rw [hequal, hcompare]
  refine ⟨⟨fun h hconflated => ?_, fun h => ?_⟩, fun h => ⟨hlost h, by rw [hlost h]⟩⟩
  · exact hconflated.1 (h.1.mp (hlost hconflated))
  · rw [hkept h]
    exact ⟨Std.LawfulEqOrd.compare_eq_iff_eq, rfl⟩

/-- The greatest integer and the one before it. -/
theorem greatest_conflated :
    (Json.number (whole ⟨18446744073709551615, by decide, by decide⟩)).equal
      (.number (whole ⟨18446744073709551614, by decide, by decide⟩)) = true ∧
    ¬ ComparedExactly ⟨18446744073709551615, by decide, by decide⟩
      ⟨18446744073709551614, by decide, by decide⟩ := by
  have hequal : (Json.number (whole ⟨18446744073709551615, by decide, by decide⟩)).equal
      (.number (whole ⟨18446744073709551614, by decide, by decide⟩)) = true := by
    decide +kernel
  exact ⟨hequal, fun h => absurd (h.1.mp hequal) (by decide)⟩

end Number
end Rulebook
