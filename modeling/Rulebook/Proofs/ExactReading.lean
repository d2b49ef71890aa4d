import Rulebook.Proofs.NumberReading
import Rulebook.Proofs.NumericValue

/-!
# Short decimals are kept

Integers of up to 53 binary digits are doubles, and so are the powers of ten up to the 22nd. The
product and the quotient of two such doubles are rounded once. A double that is written with few
digits near the point is therefore read as it is written.
-/
namespace Rulebook

namespace Double

variable {d e : Double} {m n k : Nat} {place : Int}

/-- Rounding depends on the value alone. -/
theorem rankOfRatio_scale {c : Nat} (hk : 0 < k) (hc : 0 < c) :
    rankOfRatio (n * c) (k * c) = rankOfRatio n k :=
  (rankOfRatio_roundsTo (Nat.mul_pos hk hc)).rank_eq (rankOfRatio_roundsTo hk)
    (Nat.mul_pos hk hc) hk (by ring)

theorem rankOfRatio_zero_left (hk : 0 < k) : rankOfRatio 0 k = 0 := by
  have hscale := @rankOfRatio_scale 0 1 k Nat.one_pos hk
  rwa [Nat.zero_mul, Nat.one_mul, rankOfRatio_zero] at hscale

theorem multiple_ofInt (hn : n < 9007199254740992) : (ofInt n).multiple = n * unit := by
  obtain ⟨rank, hrank⟩ := exists_rankSteps hn
  have hround : rankOfRatio n 1 = rank := rankOfRatio_of_steps hrank
  have hlimit := rankOfRatio_lt_limit (show n ≤ 18446744073709551616 by omega)
  have hmin : (ofInt n).rank = rank := by
    change min (rankOfRatio n 1) (rankLimit - 1) = rank
    omega
  change rankSteps (ofInt n).rank = n * unit
  rw [hmin, hrank]

theorem multiple_powerOfTen : ∀ k ≤ 22, (powerOfTen k).multiple = 10 ^ k * unit := by
  decide +kernel

theorem times_of_multiple (hd : d.multiple = m * unit) (he : e.multiple = n * unit) :
    d.times? e = ofRank? (d.negative != e.negative) (rankOfRatio (m * n) 1) := by
  have hunits : 0 < unit * unit := Nat.mul_pos unit_pos unit_pos
  have hscale := @rankOfRatio_scale (m * n) 1 _ Nat.one_pos hunits
  rw [Nat.one_mul, ← Nat.mul_mul_mul_comm] at hscale
  rw [times?, hd, he, hscale]

theorem over_of_multiple (hd : d.multiple = m * unit) (he : e.multiple = n * unit) (hn : 0 < n) :
    d.over? e = ofRank? (d.negative != e.negative) (rankOfRatio m n) := by
  rw [over?, hd, he, rankOfRatio_scale hn unit_pos]

/-- Few digits and a small power of ten are rounded once. -/
theorem ofParts_of_small {negative : Bool} (hn : n < 9007199254740992)
    (hplace : place.natAbs ≤ 22) :
    ofParts? negative n place =
      ofRank? negative (rankOfRatio (n * 10 ^ place.toNat) (10 ^ (-place).toNat)) := by
  have hdigits : ({ ofInt n with negative } : Double).multiple = n * unit := multiple_ofInt hn
  have hpositive : ∀ k, (powerOfTen k).negative = false := fun k =>
    decide_eq_false (Int.not_lt.mpr (Int.natCast_nonneg (Nat.pow 10 k)))
  unfold ofParts? scaled?
  rw [if_neg (by omega)]
  split
  · next hup =>
    have hdown : (-place).toNat = 0 := by omega
    rw [times_of_multiple hdigits (multiple_powerOfTen _ (by omega)), hpositive, hdown,
      Nat.pow_zero, Bool.bne_false]
  · next hdown =>
    have hup : place.toNat = 0 := by omega
    have hrounds : (place.natAbs - 1) / 308 = 0 := by omega
    have habs : place.natAbs = (-place).toNat := by omega
    dsimp only
    rw [hrounds, lowered?, Option.bind_some, Nat.mul_zero, Nat.sub_zero, habs,
      over_of_multiple hdigits (multiple_powerOfTen _ (by omega)) (Nat.pow_pos (by decide)),
      hpositive, hup, Nat.pow_zero, Nat.mul_one, Bool.bne_false]

theorem rankOfRatio_of_magnitude (hvalue : (n : ℚ) * 10 ^ place = d.magnitude.value) :
    rankOfRatio (n * 10 ^ place.toNat) (10 ^ (-place).toNat) = d.rank := by
  rcases Nat.eq_zero_or_pos d.rank with hzero | hrank
  · rw [magnitude_value_eq_zero hzero] at hvalue
    have hn : n = 0 := by
      rcases mul_eq_zero.mp hvalue with hn | hpow
      · exact_mod_cast hn
      · exact absurd hpow (zpow_ne_zero _ (by norm_num))
    rw [hn, Nat.zero_mul, rankOfRatio_zero_left (Nat.pow_pos (by decide)), hzero]
  · rw [magnitude, if_neg (Nat.ne_of_gt hrank)] at hvalue
    exact rankOfRatio_of_value hrank hvalue

theorem ofRank_rank (d : Double) : ofRank? d.negative d.rank = some d := by
  rw [ofRank?, dif_pos d.rank_lt]

theorem ofParts_of_value (hn : n < 9007199254740992) (hplace : place.natAbs ≤ 22)
    (hvalue : (n : ℚ) * 10 ^ place = d.magnitude.value) : ofParts? d.negative n place = some d := by
  rw [ofParts_of_small hn hplace, rankOfRatio_of_magnitude hvalue, ofRank_rank]

end Double

namespace Json.Token

variable {digits places : List Char} {n : Nat}

theorem ofDigitChars_lt (hdigits : ∀ c ∈ digits, c.isDigit = true) :
    Nat.ofDigitChars 10 digits 0 < 10 ^ digits.length := by
  induction digits with
  | nil => decide
  | cons c rest ih =>
    rw [List.forall_mem_cons] at hdigits
    have hbounds := Char.isDigit_iff_toNat.mp hdigits.1
    have hnine : '9'.toNat = 57 := rfl
    have hzero : '0'.toNat = 48 := rfl
    have hrest := ih hdigits.2
    have hmost : 10 ^ rest.length * (10 * 0 + (c.toNat - '0'.toNat)) ≤ 10 ^ rest.length * 9 :=
      Nat.mul_le_mul_left _ (by omega)
    rw [Nat.ofDigitChars_cons, Nat.ofDigitChars_eq_ofDigitChars_zero, List.length_cons,
      Nat.pow_succ]
    omega

theorem le_ofDigitChars (digits : List Char) (n : Nat) : n ≤ Nat.ofDigitChars 10 digits n := by
  rw [Nat.ofDigitChars_eq_ofDigitChars_zero]
  exact Nat.le_add_right_of_le (Nat.le_mul_of_pos_left n (Nat.pow_pos (by decide)))

/-- All digits of a number that 64 bits hold are taken. -/
theorem fitDigits_eq (h : Nat.ofDigitChars 10 digits n < 18446744073709551616) :
    fitDigits n digits = (Nat.ofDigitChars 10 digits n, []) := by
  induction digits generalizing n with
  | nil => rfl
  | cons c rest ih =>
    rw [Nat.ofDigitChars_cons, Nat.mul_comm] at h
    have hfits : fitsUnsigned (n * 10 + (c.toNat - '0'.toNat)) = true :=
      decide_eq_true (Nat.lt_of_le_of_lt (le_ofDigitChars rest _) h)
    unfold fitDigits
    dsimp only
    rw [if_pos hfits, ih h, Nat.ofDigitChars_cons, Nat.mul_comm]

theorem fractional_eq {negative : Bool} {exponent : Int}
    (h : Nat.ofDigitChars 10 (digits ++ places) 0 < 18446744073709551616) :
    fractional? negative digits places exponent =
      (Double.ofParts? negative (Nat.ofDigitChars 10 (digits ++ places) 0)
        (exponent - places.length)).map .double := by
  rw [Nat.ofDigitChars_append] at h ⊢
  unfold fractional?
  rw [fitDigits_eq (Nat.lt_of_le_of_lt (le_ofDigitChars places _) h)]
  dsimp only
  rw [fitDigits_eq h]
  simp only [List.length_nil, Int.natCast_zero, Int.add_zero, Int.sub_zero]

/-- Zeros that are written to reach the point count as digits. -/
theorem Parts.lt {d : Double} {exponent : Int} (h : Parts d digits places exponent)
    (hdigits : d.magnitude.digits.length ≤ 15) (hpoint : d.magnitude.point ≤ 14) :
    Nat.ofDigitChars 10 (digits ++ places) 0 < 10 ^ 15 := by
  obtain ⟨zeros, hzeros, hlength⟩ : ∃ zeros : Nat,
      d.magnitude.point - d.magnitude.digits.length = exponent - places.length + zeros ∧
        d.magnitude.digits.length + zeros ≤ 15 := by
    rcases h.place with hplace | ⟨hcount, hplace⟩
    · exact ⟨0, by omega, hdigits⟩
    · exact ⟨(d.magnitude.point - d.magnitude.digits.length + 1).toNat, by omega, by omega⟩
  have hten : (10 : ℚ) ≠ 0 := by norm_num
  have hvalue := h.value
  rw [Double.Decimal.value, hzeros, zpow_add₀ hten, mul_left_comm, mul_comm] at hvalue
  have hpadded := mul_left_cancel₀ (zpow_ne_zero _ hten) hvalue
  rw [zpow_natCast] at hpadded
  have hpadded' : Nat.ofDigitChars 10 (digits ++ places) 0 =
      Nat.ofDigitChars 10 d.magnitude.digits 0 * 10 ^ zeros := by exact_mod_cast hpadded
  calc Nat.ofDigitChars 10 (digits ++ places) 0
    _ = Nat.ofDigitChars 10 d.magnitude.digits 0 * 10 ^ zeros := hpadded'
    _ < 10 ^ d.magnitude.digits.length * 10 ^ zeros :=
      Nat.mul_lt_mul_of_pos_right (ofDigitChars_lt d.magnitude_plain) (Nat.pow_pos (by decide))
    _ = 10 ^ (d.magnitude.digits.length + zeros) := (Nat.pow_add ..).symm
    _ ≤ 10 ^ 15 := Nat.pow_le_pow_right (by decide) hlength

end Json.Token

/-- A double that is written with up to 15 digits, and the point near them, is kept. -/
theorem Number.kept_of_short {d : Double} (hdigits : d.magnitude.digits.length ≤ 15)
    (hlow : -7 ≤ d.magnitude.point) (hhigh : d.magnitude.point ≤ 14) : (Number.double d).Kept := by
  obtain ⟨digits, places, exponent, hparts⟩ := Json.Token.exists_parts d
  have hsmall := hparts.lt hdigits hhigh
  have hplace := hparts.place
  have hread := Json.Token.number_double hparts Json.Token.ends_nil
  rw [List.append_nil, Json.Token.fractional_eq (by omega),
    Double.ofParts_of_value (by omega) (by omega) hparts.value] at hread
  exact hread

/-- With 16 digits `9.025044736095445` is read as the double below it. -/
example : Json.Token.number? (Number.double ⟨false, 4621270266568568588, by decide⟩).chars =
    some (some (.double ⟨false, 4621270266568568587, by decide⟩), []) := by
  decide +kernel

end Rulebook
