import Rulebook.Proofs.JsonText
import Rulebook.Proofs.NearestRank

/-!
# Numbers are read back

What is written for a whole number is read as that number, up to the character that ends it. Of a
double the digits, the point and the exponent are read, which stand for the value that was written.
Making a double of them rounds twice, and may give another one: that a number is kept is a property
of the number, and does not depend on what follows it.
-/
namespace Rulebook

/-- Digits as a number may start with: a zero stands alone. -/
def Leads (digits : List Char) : Prop :=
  digits ≠ [] ∧ (digits.head? = some '0' → digits.length = 1)

theorem head_toDigits_ne_zero {n : Nat} (h : 0 < n) : (Nat.toDigits 10 n).head? ≠ some '0' := by
  induction n using Nat.strong_induction_on with
  | h n ih =>
    rcases Nat.lt_or_ge n 10 with hsmall | hlarge
    · have hdigit : ∀ k < 10, 0 < k → k.digitChar ≠ '0' := by decide
      rw [Nat.toDigits_of_lt_base hsmall, List.head?_cons]
      exact fun heq => hdigit n hsmall h (Option.some.inj heq)
    · rw [Nat.toDigits_of_base_le (by decide) hlarge,
        List.head?_append_of_ne_nil _ Nat.toDigits_ne_nil]
      exact ih (n / 10) (by omega) (by omega)

theorem leads_toDigits (n : Nat) : Leads (Nat.toDigits 10 n) := by
  refine ⟨Nat.toDigits_ne_nil, fun hhead => ?_⟩
  rcases Nat.eq_zero_or_pos n with rfl | hpos
  · rfl
  · exact absurd hhead (head_toDigits_ne_zero hpos)

namespace Json.Token

variable {negative : Bool} {digits whole fraction rest : List Char}

theorem digitsValue_eq (digits : List Char) :
    digitsValue digits = Nat.ofDigitChars 10 digits 0 := by
  rw [Nat.ofDigitChars_eq_foldl]
  simp only [digitsValue, Nat.mul_comm]

/-- Digits are taken up to a character that is none. -/
theorem split_digits (hdigits : ∀ c ∈ digits, c.isDigit = true)
    (hstop : ∀ c ∈ rest.head?, ¬ c.isDigit = true) :
    (digits ++ rest).takeWhile Char.isDigit = digits ∧
      (digits ++ rest).dropWhile Char.isDigit = rest := by
  rw [List.takeWhile_append_of_pos hdigits, List.dropWhile_append_of_pos hdigits]
  cases rest with
  | nil => exact ⟨List.append_nil _, rfl⟩
  | cons c more =>
    have hc := hstop c rfl
    rw [List.takeWhile_cons_of_neg hc, List.dropWhile_cons_of_neg hc, List.append_nil]
    exact ⟨rfl, rfl⟩

theorem mark_not_digit (mark : Char) (hmark : mark.isDigit = false) (more : List Char) :
    ∀ c ∈ (mark :: more).head?, ¬ c.isDigit = true := by
  intro c hc
  cases hc
  rw [hmark]
  exact Bool.false_ne_true

theorem not_refused (hlead : Leads digits) :
    ¬ (digits = [] ∨ (digits.head? = some '0' ∧ digits.length ≠ 1)) := by
  rintro (hnil | ⟨hzero, hlong⟩)
  · exact hlead.1 hnil
  · exact hlong (hlead.2 hzero)

theorem ends_not_digit (h : Ends rest) : ∀ c ∈ rest.head?, ¬ c.isDigit = true :=
  fun c hc hdigit => h.not_number c hc (.inl hdigit)

/-- Nothing that ends a number is a point or marks an exponent. -/
theorem ends_cases (h : Ends rest) :
    rest = [] ∨ ∃ c more, rest = c :: more ∧ c ≠ '.' ∧ ¬ (c = 'e' ∨ c = 'E') := by
  cases rest with
  | nil => exact .inl rfl
  | cons c more =>
    have hends : ∀ c ∈ [',', ']', '\x7d'], c ≠ '.' ∧ ¬ (c = 'e' ∨ c = 'E') := by simp
    exact .inr ⟨c, more, rfl, hends c (h c rfl)⟩

theorem magnitude_whole (hdigits : ∀ c ∈ digits, c.isDigit = true) (hlead : Leads digits)
    (hrest : Ends rest) :
    magnitude? negative (digits ++ rest) = some (wholeNumber? negative digits, rest) := by
  obtain ⟨htake, hdrop⟩ := split_digits hdigits (ends_not_digit hrest)
  unfold magnitude?
  simp only [htake, hdrop]
  rw [if_neg (not_refused hlead)]
  rcases ends_cases hrest with rfl | ⟨c, more, rfl, hpoint, hmark⟩
  · rfl
  · simp [hpoint, hmark]

/-- A point with digits on both sides. -/
theorem magnitude_point (hwhole : ∀ c ∈ whole, c.isDigit = true) (hlead : Leads whole)
    (hfraction : ∀ c ∈ fraction, c.isDigit = true) (hplaces : fraction ≠ []) (hrest : Ends rest) :
    magnitude? negative (whole ++ '.' :: (fraction ++ rest)) =
      some (fractional? negative whole fraction 0, rest) := by
  obtain ⟨htake, hdrop⟩ := split_digits hwhole (mark_not_digit '.' rfl (fraction ++ rest))
  obtain ⟨htake', hdrop'⟩ := split_digits hfraction (ends_not_digit hrest)
  unfold magnitude?
  simp only [htake, hdrop, htake', hdrop']
  rw [if_neg (not_refused hlead)]
  obtain ⟨digit, places, rfl⟩ := List.exists_cons_of_ne_nil hplaces
  rcases ends_cases hrest with rfl | ⟨c, more, rfl, -, hmark⟩
  · rfl
  · simp [hmark]

theorem exponent_signed (hdigits : ∀ c ∈ digits, c.isDigit = true) (hne : digits ≠ [])
    (negative : Bool) (hrest : Ends rest) :
    exponent? ((if negative then '-' else '+') :: (digits ++ rest)) =
      some (if negative then -(digitsValue digits : Int) else digitsValue digits, rest) := by
  obtain ⟨htake, hdrop⟩ := split_digits hdigits (ends_not_digit hrest)
  obtain ⟨digit, more, rfl⟩ := List.exists_cons_of_ne_nil hne
  rw [List.cons_append] at htake hdrop
  cases negative <;> simp [exponent?, htake, hdrop]

theorem exponent_chars (d : Double.Decimal) (hrest : Ends rest) :
    exponent? (d.exponentChars ++ rest) = some (d.point - 1, rest) := by
  have hdigits : ∀ c ∈ Nat.toDigits 10 (d.point - 1).natAbs, c.isDigit = true :=
    Number.isDigit_of_mem_toDigits
  have hsigned := exponent_signed hdigits Nat.toDigits_ne_nil (decide (d.point - 1 < 0)) hrest
  simp only [decide_eq_true_eq, digitsValue_eq, Nat.ofDigitChars_ten_toDigits] at hsigned
  rw [Double.Decimal.exponentChars, List.cons_append, hsigned]
  split <;> (congr; omega)

/-- One digit, the others after a point, and an exponent. -/
theorem magnitude_exponent {d : Double.Decimal} (hplain : d.Plain) (hdigits : d.digits ≠ [])
    (hrest : Ends rest) :
    magnitude? negative (d.mantissa ++ 'e' :: (d.exponentChars ++ rest)) =
      some (fractional? negative (d.digits.take 1) (d.digits.drop 1) (d.point - 1), rest) := by
  obtain ⟨digit, places, hsplit⟩ := List.exists_cons_of_ne_nil hdigits
  have hplain' : ∀ c ∈ digit :: places, c.isDigit = true := hsplit ▸ hplain
  rw [List.forall_mem_cons] at hplain'
  have hdigit : ∀ c ∈ [digit], c.isDigit = true := List.forall_mem_singleton.mpr hplain'.1
  have hexponent := exponent_chars d hrest
  unfold Double.Decimal.mantissa
  rw [hsplit]
  simp only [List.take_succ_cons, List.take_zero, List.drop_succ_cons, List.drop_zero]
  have hafter := mark_not_digit 'e' rfl (d.exponentChars ++ rest)
  cases places with
  | nil =>
    obtain ⟨htake, hdrop⟩ := split_digits hdigit hafter
    rw [List.singleton_append] at htake hdrop
    unfold magnitude?
    simp [htake, hdrop, hexponent]
  | cons place more =>
    have hpoint := mark_not_digit '.' rfl (place :: more ++ 'e' :: (d.exponentChars ++ rest))
    obtain ⟨htake, hdrop⟩ := split_digits hdigit hpoint
    obtain ⟨htake', hdrop'⟩ := split_digits hplain'.2 hafter
    rw [List.singleton_append, List.cons_append] at htake hdrop
    rw [List.cons_append] at htake' hdrop'
    unfold magnitude?
    simp [htake, hdrop, htake', hdrop', hexponent]

end Json.Token

namespace Double

namespace Decimal

variable {d : Decimal}

/-- There are digits, and the first one is no zero but for zero itself. -/
structure Normal (d : Decimal) : Prop where
  digits_ne_nil : d.digits ≠ []
  eq_of_zero : d.digits.head? = some '0' → d = ⟨['0'], 1⟩

theorem ofMultiple_normal {c : Nat} (h : 0 < c) (place : Int) : (ofMultiple c place).Normal := by
  have hhead := head_toDigits_ne_zero h
  have hne : Nat.toDigits 10 c ≠ [] := Nat.toDigits_ne_nil
  obtain ⟨zeros, hzeros⟩ := exists_zeros (Nat.toDigits 10 c)
  unfold ofMultiple
  dsimp only
  generalize ((Nat.toDigits 10 c).reverse.dropWhile (· = '0')).reverse = digits at hzeros ⊢
  rw [hzeros] at hhead hne
  cases digits with
  | nil =>
    cases zeros with
    | zero => exact absurd rfl hne
    | succ zeros => exact absurd rfl hhead
  | cons digit rest => exact ⟨List.cons_ne_nil _ _, fun hzero => absurd hzero hhead⟩

/-- Behind the point stand all digits that come after it, and one zero if there are none. -/
theorem positional_leads (h : d.Normal) (hplain : d.Plain) :
    ∃ whole fraction, d.positional = whole ++ '.' :: fraction ∧
      (∀ c ∈ whole, c.isDigit = true) ∧ Leads whole ∧ fraction ≠ [] ∧
      ((fraction.length : Int) = d.digits.length - d.point ∨
        d.digits.length ≤ d.point ∧ fraction.length = 1) := by
  obtain ⟨digits, point⟩ := d
  obtain ⟨digit, rest, rfl⟩ : ∃ digit rest, digits = digit :: rest :=
    List.exists_cons_of_ne_nil h.digits_ne_nil
  unfold positional
  dsimp only
  split
  · next hpoint =>
    exact ⟨['0'], List.replicate (-point).toNat '0' ++ digit :: rest, rfl,
      List.forall_mem_singleton.mpr rfl, ⟨List.cons_ne_nil _ _, fun _ => rfl⟩,
      List.append_ne_nil_of_right_ne_nil _ (List.cons_ne_nil _ _), .inl (by simp; omega)⟩
  · next hpoint =>
    split
    · next hcount =>
      refine ⟨digit :: rest ++ List.replicate (point - (digit :: rest).length).toNat '0', ['0'],
        by simp, List.forall_mem_append.mpr ⟨hplain, fun c hc => isDigit_of_mem_replicate hc⟩,
        ⟨List.cons_ne_nil _ _, fun hzero => ?_⟩, List.cons_ne_nil _ _, .inr ⟨hcount, rfl⟩⟩
      cases h.eq_of_zero hzero
      rfl
    · next hcount =>
      obtain ⟨places, hplaces⟩ : ∃ places, point.toNat = places + 1 := ⟨point.toNat - 1, by omega⟩
      refine ⟨(digit :: rest).take point.toNat, (digit :: rest).drop point.toNat, rfl,
        fun c hc => hplain c (List.mem_of_mem_take hc), ⟨?_, fun hzero => ?_⟩, ?_,
        .inl (by rw [List.length_drop]; omega)⟩
      · rw [hplaces]
        exact List.cons_ne_nil _ _
      · rw [hplaces, List.take_succ_cons, List.head?_cons] at hzero
        cases h.eq_of_zero hzero
        exact absurd (Int.le_refl 1) hcount
      · rw [Ne, List.drop_eq_nil_iff]
        omega

end Decimal

theorem magnitude_normal (d : Double) : d.magnitude.Normal := by
  unfold magnitude
  split
  · exact ⟨List.cons_ne_nil _ _, fun _ => rfl⟩
  · next hrank =>
    have hpos := Nat.pos_of_ne_zero hrank
    obtain ⟨c, count, -, hshortest⟩ := shortest_eq hpos
    have hvalue := shortest_value_pos hpos
    rw [hshortest, Decimal.ofMultiple_value] at hvalue
    rw [hshortest]
    refine Decimal.ofMultiple_normal (Nat.pos_of_ne_zero ?_) _
    rintro rfl
    simp at hvalue

end Double

namespace Json.Token

variable {rest : List Char}

/-- The digits before the point and behind it and the exponent that a magnitude is written with. -/
structure Parts (d : Double) (digits places : List Char) (exponent : Int) : Prop where
  read {rest : List Char} : Ends rest → magnitude? d.negative (d.magnitude.chars ++ rest) =
    some (fractional? d.negative digits places exponent, rest)
  value : (Nat.ofDigitChars 10 (digits ++ places) 0 : ℚ) * 10 ^ (exponent - places.length) =
    d.magnitude.value
  place : exponent - places.length = d.magnitude.point - d.magnitude.digits.length ∨
    d.magnitude.digits.length ≤ d.magnitude.point ∧ exponent - places.length = -1

theorem exists_parts (d : Double) : ∃ digits places exponent, Parts d digits places exponent := by
  have hplain := d.magnitude_plain
  have hnormal := d.magnitude_normal
  by_cases hpositional : -5 < d.magnitude.point ∧ d.magnitude.point ≤ 16
  · obtain ⟨whole, fraction, htext, hwhole, hfraction, hvalue⟩ :=
      Double.Decimal.positional_parts hplain
    obtain ⟨whole', fraction', htext', hwhole', hlead, hplaces, hlength⟩ :=
      Double.Decimal.positional_leads hnormal hplain
    obtain ⟨rfl, hpoint⟩ := append_inj_of_stop hwhole hwhole' (mark_not_digit '.' rfl fraction)
      (mark_not_digit '.' rfl fraction') (htext.symm.trans htext')
    cases hpoint
    refine ⟨whole, fraction, 0, fun {rest} hrest => ?_, ?_, by omega⟩
    · rw [Double.Decimal.chars, if_pos hpositional, htext, List.append_assoc, List.cons_append,
        magnitude_point hwhole hlead hfraction hplaces hrest]
    · rw [hvalue, zero_sub, zpow_neg, zpow_natCast, div_eq_mul_inv]
  · have hlength : 1 ≤ d.magnitude.digits.length :=
      List.length_pos_iff.mpr hnormal.digits_ne_nil
    have hplace : d.magnitude.point - 1 - ((d.magnitude.digits.drop 1).length : Int) =
        d.magnitude.point - d.magnitude.digits.length := by
      rw [List.length_drop]
      omega
    refine ⟨d.magnitude.digits.take 1, d.magnitude.digits.drop 1, d.magnitude.point - 1,
      fun {rest} hrest => ?_, ?_, .inl hplace⟩
    · rw [Double.Decimal.chars, if_neg hpositional, Double.Decimal.scientific_eq,
        List.append_assoc, List.cons_append, magnitude_exponent hplain hnormal.digits_ne_nil hrest]
    · rw [List.take_append_drop, hplace]
      rfl

theorem wholeNumber_value (w : Whole) :
    wholeNumber? (decide (w.value < 0)) (Nat.toDigits 10 w.value.natAbs) = some (.whole w) := by
  have habs : (if w.value < 0 then -(w.value.natAbs : Int) else w.value.natAbs) = w.value := by
    split <;> omega
  have hwhole : Whole.ofInt? w.value = some w := by
    rw [Whole.ofInt?, dif_pos ⟨w.lower, w.upper⟩]
  unfold wholeNumber?
  rw [digitsValue_eq, Nat.ofDigitChars_ten_toDigits]
  simp only [decide_eq_true_eq, habs, hwhole]
  rw [if_neg (by omega)]

theorem number_unsigned {cs : List Char} (h : Unsigned cs) (hne : cs ≠ []) (rest : List Char) :
    number? (cs ++ rest) = magnitude? false (cs ++ rest) := by
  obtain ⟨c, more, rfl⟩ := List.exists_cons_of_ne_nil hne
  have hminus : c ≠ '-' := h c rfl
  rw [List.cons_append, number?]
  exact fun _ heq => hminus (List.cons.inj heq).1

/-- A sign is read, and then what follows it. -/
theorem number_signed {cs : List Char} (h : Unsigned cs) (hne : cs ≠ []) (negative : Bool)
    (rest : List Char) :
    number? ((if negative then ['-'] else []) ++ cs ++ rest) =
      magnitude? negative (cs ++ rest) := by
  cases negative with
  | false => exact number_unsigned h hne rest
  | true => rfl

theorem number_double {d : Double} {digits places : List Char} {exponent : Int}
    (h : Parts d digits places exponent) (hrest : Ends rest) :
    number? ((Number.double d).chars ++ rest) =
      some (fractional? d.negative digits places exponent, rest) := by
  have hne : d.magnitude.chars ≠ [] := by
    obtain ⟨c, hc, -⟩ := Double.Decimal.chars_mark d.magnitude_plain
    exact List.ne_nil_of_mem hc
  rw [Number.chars, Double.chars_eq,
    number_signed (Double.Decimal.chars_unsigned d.magnitude_plain) hne, h.read hrest]

theorem number_whole (w : Whole) (hrest : Ends rest) :
    number? ((Number.whole w).chars ++ rest) = some (some (.whole w), rest) := by
  have hdigits : ∀ c ∈ Nat.toDigits 10 w.value.natAbs, c.isDigit = true :=
    Number.isDigit_of_mem_toDigits
  have hsigned := number_signed (unsigned_of_digits hdigits) Nat.toDigits_ne_nil
    (decide (w.value < 0)) rest
  simp only [decide_eq_true_eq] at hsigned
  rw [Number.chars, hsigned, magnitude_whole hdigits (leads_toDigits _) hrest, wholeNumber_value]

theorem ends_nil : Ends [] := fun _ hc => (nomatch hc)

end Json.Token

/-- The number is read as it is written. -/
def Number.Kept (n : Number) : Prop := Json.Token.number? n.chars = some (some n, [])

instance {n : Number} : Decidable n.Kept := inferInstanceAs (Decidable (_ = _))

theorem Number.kept_whole (w : Whole) : (Number.whole w).Kept := by
  have hread := Json.Token.number_whole w Json.Token.ends_nil
  rwa [List.append_nil] at hread

theorem Json.Token.number_chars {n : Number} {rest : List Char} (h : n.Kept) (hrest : Ends rest) :
    number? (n.chars ++ rest) = some (some n, rest) := by
  cases n with
  | whole w => exact number_whole w hrest
  | double d =>
    obtain ⟨digits, places, exponent, hparts⟩ := exists_parts d
    have hread := number_double hparts ends_nil
    rw [List.append_nil, h] at hread
    have hvalue : some (.double d) = fractional? d.negative digits places exponent :=
      congrArg Prod.fst (Option.some.inj hread)
    rw [number_double hparts hrest, ← hvalue]

end Rulebook
