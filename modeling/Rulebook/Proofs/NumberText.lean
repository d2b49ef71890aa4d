import Rulebook.Number
import Rulebook.Proofs.DecimalValue

/-!
# Numbers are known by their text

Distinct numbers are written differently. Of a text with a point the value can be read off, whatever
the place of the point; a text with an exponent gives the digits and the exponent themselves. Whole
numbers have neither a point nor an exponent.
-/
namespace Rulebook

/-- Two texts that stop at the first character of another sort agree up to there. -/
theorem append_inj_of_stop {α : Type} {P : α → Prop} {l l' r r' : List α} (hl : ∀ a ∈ l, P a)
    (hl' : ∀ a ∈ l', P a) (hr : ∀ a ∈ r.head?, ¬ P a) (hr' : ∀ a ∈ r'.head?, ¬ P a)
    (h : l ++ r = l' ++ r') : l = l' ∧ r = r' := by
  induction l generalizing l' with
  | nil =>
    cases l' with
    | nil => exact ⟨rfl, h⟩
    | cons a rest =>
      rw [List.nil_append, List.cons_append] at h
      exact absurd (hl' a List.mem_cons_self) (hr a (by rw [h]; rfl))
  | cons a rest ih =>
    cases l' with
    | nil =>
      rw [List.nil_append, List.cons_append] at h
      exact absurd (hl a List.mem_cons_self) (hr' a (by rw [← h]; rfl))
    | cons b rest' =>
      rw [List.cons_append, List.cons_append, List.cons.injEq] at h
      obtain ⟨rfl, h⟩ := h
      rw [List.forall_mem_cons] at hl hl'
      obtain ⟨rfl, hrest⟩ := ih hl.2 hl'.2 h
      exact ⟨rfl, hrest⟩

namespace Double.Decimal

variable {d e : Decimal}

def Plain (d : Decimal) : Prop := ∀ c ∈ d.digits, c.isDigit = true

theorem ofMultiple_plain (c : Nat) (place : Int) : (ofMultiple c place).Plain := by
  intro digit hdigit
  have hmem : digit ∈ Nat.toDigits 10 c :=
    List.mem_reverse.mp ((List.dropWhile_sublist _).mem (List.mem_reverse.mp hdigit))
  exact Nat.isDigit_of_mem_toDigits (by decide) (by decide) hmem

theorem isDigit_of_mem_replicate {n : Nat} {c : Char} (h : c ∈ List.replicate n '0') :
    c.isDigit = true := by
  rw [List.eq_of_mem_replicate h]
  rfl

/-- A value of which all digits are written, some of them after the point. -/
theorem value_of_digits {digits : List Char} {point : Int} {n places : Nat}
    (h : Nat.ofDigitChars 10 digits 0 * 10 ^ (point - digits.length + places).toNat = n)
    (hplaces : 0 ≤ point - digits.length + places) :
    (⟨digits, point⟩ : Decimal).value = n / 10 ^ places := by
  have hten : (10 : ℚ) ≠ 0 := by norm_num
  have hpow : ((10 : ℚ) ^ (point - digits.length + places).toNat) =
      10 ^ (point - digits.length) * 10 ^ places := by
    rw [← zpow_natCast, Int.toNat_of_nonneg hplaces, zpow_add₀ hten, zpow_natCast]
  rw [eq_div_iff (pow_ne_zero _ hten), value, ← h]
  push_cast
  rw [hpow]
  ring

/-- The digits before the point and after it, and the value that they stand for. -/
theorem positional_parts (hplain : d.Plain) :
    ∃ whole fraction, d.positional = whole ++ '.' :: fraction ∧
      (∀ c ∈ whole, c.isDigit = true) ∧ (∀ c ∈ fraction, c.isDigit = true) ∧
      d.value = Nat.ofDigitChars 10 (whole ++ fraction) 0 / 10 ^ fraction.length := by
  obtain ⟨digits, point⟩ := d
  have hzeros : ∀ n, ∀ c ∈ List.replicate n '0', c.isDigit = true :=
    fun n c hc => isDigit_of_mem_replicate hc
  unfold positional
  dsimp only
  split
  · next hpoint =>
    refine ⟨['0'], List.replicate (-point).toNat '0' ++ digits, rfl,
      List.forall_mem_singleton.mpr rfl, List.forall_mem_append.mpr ⟨hzeros _, hplain⟩, ?_⟩
    rw [List.length_append, List.length_replicate]
    refine value_of_digits ?_ (by omega)
    have hexp : (point - digits.length + ((-point).toNat + digits.length : Nat)).toNat = 0 := by
      omega
    rw [hexp, Nat.pow_zero, Nat.mul_one, Nat.ofDigitChars_append, Nat.ofDigitChars_append,
      Nat.ofDigitChars_replicate_zero]
    rfl
  · next hpoint =>
    split
    · next hcount =>
      refine ⟨digits ++ List.replicate (point - digits.length).toNat '0', ['0'],
        by simp, List.forall_mem_append.mpr ⟨hplain, hzeros _⟩, List.forall_mem_singleton.mpr rfl, ?_⟩
      refine value_of_digits ?_ (by simp; omega)
      have hexp : (point - digits.length + (['0'].length : Nat)).toNat =
          (point - digits.length).toNat + 1 := by
        simp
        omega
      rw [hexp, List.append_assoc, ← List.replicate_succ', Nat.ofDigitChars_append,
        Nat.ofDigitChars_replicate_zero, Nat.mul_comm]
    · next hcount =>
      refine ⟨digits.take point.toNat, digits.drop point.toNat, rfl,
        fun c hc => hplain c (List.mem_of_mem_take hc),
        fun c hc => hplain c (List.mem_of_mem_drop hc), ?_⟩
      rw [List.take_append_drop]
      refine value_of_digits ?_ (by simp; omega)
      have hexp : (point - digits.length + ((digits.drop point.toNat).length : Nat)).toNat = 0 := by
        simp
        omega
      rw [hexp, Nat.pow_zero, Nat.mul_one]

theorem positional_value (hd : d.Plain) (he : e.Plain) (h : d.positional = e.positional) :
    d.value = e.value := by
  obtain ⟨whole, fraction, htext, hwhole, -, hvalue⟩ := positional_parts hd
  obtain ⟨whole', fraction', htext', hwhole', -, hvalue'⟩ := positional_parts he
  rw [htext, htext'] at h
  have hpoint : ∀ c ∈ ('.' :: fraction).head?, ¬ c.isDigit = true := by
    intro c hc
    cases hc
    decide
  have hpoint' : ∀ c ∈ ('.' :: fraction').head?, ¬ c.isDigit = true := by
    intro c hc
    cases hc
    decide
  obtain ⟨rfl, hrest⟩ := append_inj_of_stop hwhole hwhole' hpoint hpoint' h
  cases hrest
  rw [hvalue, hvalue']

/-- The digits of a scientific text, with the point among them. -/
def mantissa (d : Decimal) : List Char :=
  d.digits.take 1 ++ match d.digits.drop 1 with
    | [] => []
    | rest => '.' :: rest

/-- The sign of the exponent and its digits. -/
def exponentChars (d : Decimal) : List Char :=
  (if d.point - 1 < 0 then '-' else '+') :: Nat.toDigits 10 (d.point - 1).natAbs

theorem scientific_eq (d : Decimal) : d.scientific = d.mantissa ++ 'e' :: d.exponentChars := rfl

theorem mantissa_chars (hplain : d.Plain) : ∀ c ∈ d.mantissa, c.isDigit = true ∨ c = '.' := by
  intro c hc
  unfold mantissa at hc
  rcases List.mem_append.mp hc with hc | hc
  · exact .inl (hplain c (List.mem_of_mem_take hc))
  · split at hc
    · cases hc
    · rcases List.mem_cons.mp hc with rfl | hc
      · exact .inr rfl
      · exact .inl (hplain c (List.mem_of_mem_drop hc))

theorem digits_of_mantissa (h : d.mantissa = e.mantissa) : d.digits = e.digits := by
  unfold mantissa at h
  rcases hd : d.digits with _ | ⟨a, _ | ⟨b, rest⟩⟩ <;>
    rcases he : e.digits with _ | ⟨a', _ | ⟨b', rest'⟩⟩ <;> simp_all

theorem ne_exponent_mark {c : Char} (h : c.isDigit = true ∨ c = '.') : c ≠ 'e' := by
  rintro rfl
  rcases h with h | h
  · exact absurd h (by decide)
  · exact absurd h (by decide)

theorem exponentChars_inj (h : d.exponentChars = e.exponentChars) : d.point = e.point := by
  unfold exponentChars at h
  rw [List.cons.injEq] at h
  obtain ⟨hsign, hdigits⟩ := h
  have hmagnitude : (d.point - 1).natAbs = (e.point - 1).natAbs := by
    rw [← Nat.ofDigitChars_ten_toDigits (n := (d.point - 1).natAbs), hdigits,
      Nat.ofDigitChars_ten_toDigits]
  by_cases hd : d.point - 1 < 0
  · by_cases he : e.point - 1 < 0
    · omega
    · rw [if_pos hd, if_neg he] at hsign
      exact absurd hsign (by decide)
  · by_cases he : e.point - 1 < 0
    · rw [if_neg hd, if_pos he] at hsign
      exact absurd hsign (by decide)
    · omega

theorem scientific_inj (hd : d.Plain) (he : e.Plain) (h : d.scientific = e.scientific) :
    d = e := by
  rw [scientific_eq, scientific_eq] at h
  have hmark : ∀ (rest : List Char), ∀ c ∈ ('e' :: rest).head?, ¬ c ≠ 'e' := by
    intro rest c hc
    cases hc
    exact fun hne => hne rfl
  obtain ⟨hmantissa, hrest⟩ := append_inj_of_stop
    (fun c hc => ne_exponent_mark (mantissa_chars hd c hc))
    (fun c hc => ne_exponent_mark (mantissa_chars he c hc)) (hmark _) (hmark _) h
  have hdigits := digits_of_mantissa hmantissa
  have hpoint := exponentChars_inj (List.cons.inj hrest).2
  cases d
  cases e
  simp_all

/-- A positional text has no exponent. -/
theorem positional_ne_scientific (hd : d.Plain) : d.positional ≠ e.scientific := by
  intro h
  obtain ⟨whole, fraction, htext, hwhole, hfraction, -⟩ := positional_parts hd
  have hmark : 'e' ∈ whole ++ '.' :: fraction := by
    rw [← htext, h, scientific_eq]
    exact List.mem_append_right _ List.mem_cons_self
  rcases List.mem_append.mp hmark with hmem | hmem
  · exact absurd (hwhole 'e' hmem) (by decide)
  · rcases List.mem_cons.mp hmem with hmem | hmem
    · exact absurd hmem (by decide)
    · exact absurd (hfraction 'e' hmem) (by decide)

/-- Decimals that are written alike have the same value. -/
theorem chars_value (hd : d.Plain) (he : e.Plain) (h : d.chars = e.chars) :
    d.value = e.value := by
  unfold chars at h
  split at h <;> split at h
  · exact positional_value hd he h
  · exact absurd h (positional_ne_scientific hd)
  · exact absurd h.symm (positional_ne_scientific he)
  · rw [scientific_inj hd he h]

end Double.Decimal

/-- The characters that numbers are written with. -/
def IsNumberChar (c : Char) : Prop := c.isDigit = true ∨ c ∈ ['.', 'e', '+', '-']

/-- A text that does not start with a minus sign. -/
def Unsigned (cs : List Char) : Prop := ∀ c ∈ cs.head?, c ≠ '-'

theorem unsigned_of_digits {cs : List Char} (h : ∀ c ∈ cs, c.isDigit = true) : Unsigned cs := by
  intro c hc hminus
  have hdigit := h c (List.mem_of_mem_head? hc)
  rw [hminus] at hdigit
  exact absurd hdigit (by decide)

namespace Double.Decimal

variable {d : Decimal}

theorem chars_number (hd : d.Plain) : ∀ c ∈ d.chars, IsNumberChar c := by
  intro c hc
  unfold chars at hc
  split at hc
  · obtain ⟨whole, fraction, htext, hwhole, hfraction, -⟩ := positional_parts hd
    rw [htext] at hc
    rcases List.mem_append.mp hc with hc | hc
    · exact .inl (hwhole c hc)
    · rcases List.mem_cons.mp hc with rfl | hc
      · exact .inr (by decide)
      · exact .inl (hfraction c hc)
  · rw [scientific_eq] at hc
    rcases List.mem_append.mp hc with hc | hc
    · rcases mantissa_chars hd c hc with hdigit | rfl
      · exact .inl hdigit
      · exact .inr (by decide)
    · rcases List.mem_cons.mp hc with rfl | hc
      · exact .inr (by decide)
      · unfold exponentChars at hc
        rcases List.mem_cons.mp hc with rfl | hc
        · split
          · exact .inr (by decide)
          · exact .inr (by decide)
        · exact .inl (Nat.isDigit_of_mem_toDigits (by decide) (by decide) hc)

/-- A decimal is written with a point or an exponent. -/
theorem chars_mark (hd : d.Plain) : ∃ c ∈ d.chars, c.isDigit = false ∧ c ≠ '-' := by
  unfold chars
  split
  · obtain ⟨whole, fraction, htext, -⟩ := positional_parts hd
    exact ⟨'.', by rw [htext]; exact List.mem_append_right _ List.mem_cons_self, by decide⟩
  · refine ⟨'e', ?_, by decide⟩
    rw [scientific_eq]
    exact List.mem_append_right _ List.mem_cons_self

theorem chars_unsigned (hd : d.Plain) : Unsigned d.chars := by
  intro c hc
  unfold chars at hc
  split at hc
  · obtain ⟨whole, fraction, htext, hwhole, -⟩ := positional_parts hd
    rw [htext] at hc
    cases whole with
    | nil =>
      cases hc
      decide
    | cons first rest =>
      cases hc
      exact unsigned_of_digits hwhole _ rfl
  · rw [scientific_eq] at hc
    cases hmantissa : d.mantissa with
    | nil =>
      rw [hmantissa] at hc
      cases hc
      decide
    | cons first rest =>
      have hfirst := mantissa_chars hd first (by rw [hmantissa]; exact List.mem_cons_self)
      rw [hmantissa] at hc
      cases hc
      rintro rfl
      rcases hfirst with h | h
      · exact absurd h (by decide)
      · exact absurd h (by decide)

end Double.Decimal

namespace Double

/-- The decimal of the magnitude; zero has one as well. -/
def magnitude (d : Double) : Decimal := if d.rank = 0 then ⟨['0'], 1⟩ else d.shortest

theorem chars_eq (d : Double) :
    d.chars = (if d.negative then ['-'] else []) ++ d.magnitude.chars := by
  unfold chars magnitude
  by_cases hrank : d.rank = 0
  · rw [if_pos hrank, if_pos hrank]
    rfl
  · rw [if_neg hrank, if_neg hrank]

theorem magnitude_plain (d : Double) : d.magnitude.Plain := by
  unfold magnitude
  split
  · exact List.forall_mem_singleton.mpr rfl
  · next hrank =>
    obtain ⟨c, count, -, hshortest⟩ := shortest_eq (Nat.pos_of_ne_zero hrank)
    rw [hshortest]
    exact Decimal.ofMultiple_plain c _

theorem magnitude_value_eq_zero {d : Double} (h : d.rank = 0) : d.magnitude.value = 0 := by
  rw [magnitude, if_pos h, Decimal.value]
  norm_num [Nat.ofDigitChars]

theorem rank_eq_of_magnitude {d e : Double} (h : d.magnitude.chars = e.magnitude.chars) :
    d.rank = e.rank := by
  have hvalue := Decimal.chars_value d.magnitude_plain e.magnitude_plain h
  rcases Nat.eq_zero_or_pos d.rank with hd | hd
  · rcases Nat.eq_zero_or_pos e.rank with he | he
    · rw [hd, he]
    · rw [magnitude_value_eq_zero hd, magnitude, if_neg (by omega)] at hvalue
      exact absurd hvalue (ne_of_lt (shortest_value_pos he))
  · rcases Nat.eq_zero_or_pos e.rank with he | he
    · rw [magnitude_value_eq_zero he, magnitude, if_neg (by omega)] at hvalue
      exact absurd hvalue.symm (ne_of_lt (shortest_value_pos hd))
    · rw [magnitude, magnitude, if_neg (by omega), if_neg (by omega)] at hvalue
      exact rank_eq_of_shortest_value hd he hvalue

end Double

/-- A sign is told from the text that follows it. -/
theorem sign_inj {a b : Bool} {cs ds : List Char} (hcs : Unsigned cs) (hds : Unsigned ds)
    (h : (if a then ['-'] else []) ++ cs = (if b then ['-'] else []) ++ ds) : a = b ∧ cs = ds := by
  cases a <;> cases b
  · exact ⟨rfl, h⟩
  · have hminus : cs = '-' :: ds := h
    exact absurd rfl (hcs '-' (by rw [hminus]; rfl))
  · have hminus : '-' :: cs = ds := h
    exact absurd rfl (hds '-' (by rw [← hminus]; rfl))
  · exact ⟨rfl, List.cons.inj h |>.2⟩

theorem Double.chars_inj {d e : Double} (h : d.chars = e.chars) : d = e := by
  rw [chars_eq, chars_eq] at h
  obtain ⟨hsign, hmagnitude⟩ := sign_inj (Decimal.chars_unsigned d.magnitude_plain)
    (Decimal.chars_unsigned e.magnitude_plain) h
  have hrank := rank_eq_of_magnitude hmagnitude
  obtain ⟨negative, rank, hlt⟩ := d
  obtain ⟨negative', rank', hlt'⟩ := e
  cases hsign
  cases hrank
  rfl

namespace Number

theorem isDigit_of_mem_toDigits {n : Nat} : ∀ c ∈ Nat.toDigits 10 n, c.isDigit = true :=
  fun _ hc => Nat.isDigit_of_mem_toDigits (by decide) (by decide) hc

theorem whole_chars_inj {a b : Whole} (h : (whole a).chars = (whole b).chars) : a = b := by
  have hchars : ∀ w : Whole, (whole w).chars =
      (if decide (w.value < 0) then ['-'] else []) ++ Nat.toDigits 10 w.value.natAbs := by
    intro w
    unfold chars
    simp only [decide_eq_true_eq]
  rw [hchars, hchars] at h
  obtain ⟨hsign, hdigits⟩ := sign_inj (unsigned_of_digits isDigit_of_mem_toDigits)
    (unsigned_of_digits isDigit_of_mem_toDigits) h
  have habs : a.value.natAbs = b.value.natAbs := by
    rw [← Nat.ofDigitChars_ten_toDigits (n := a.value.natAbs), hdigits,
      Nat.ofDigitChars_ten_toDigits]
  rw [decide_eq_decide] at hsign
  have hvalue : a.value = b.value := by omega
  cases a
  cases b
  cases hvalue
  rfl

/-- A double is written with a character that no whole number has. -/
theorem whole_ne_double (w : Whole) (d : Double) : (whole w).chars ≠ (double d).chars := by
  intro h
  obtain ⟨c, hc, hdigit, hminus⟩ := Double.Decimal.chars_mark d.magnitude_plain
  have hmem : c ∈ (whole w).chars := by
    rw [h, chars, Double.chars_eq]
    exact List.mem_append_right _ hc
  unfold chars at hmem
  rcases List.mem_append.mp hmem with hmem | hmem
  · split at hmem
    · exact hminus (List.mem_singleton.mp hmem)
    · cases hmem
  · rw [isDigit_of_mem_toDigits c hmem] at hdigit
    cases hdigit

/-- Distinct numbers are written differently, `1` and `1.0` among them. -/
theorem chars_inj {a b : Number} (h : a.chars = b.chars) : a = b := by
  cases a with
  | whole w =>
    cases b with
    | whole w' => rw [whole_chars_inj h]
    | double d => exact absurd h (whole_ne_double w d)
  | double d =>
    cases b with
    | whole w => exact absurd h.symm (whole_ne_double w d)
    | double d' => rw [Double.chars_inj h]

theorem chars_ne_nil (n : Number) : n.chars ≠ [] := by
  cases n with
  | whole w => exact List.append_ne_nil_of_right_ne_nil _ Nat.toDigits_ne_nil
  | double d =>
    obtain ⟨c, hmem, -⟩ := Double.Decimal.chars_mark d.magnitude_plain
    rw [chars, Double.chars_eq]
    exact List.append_ne_nil_of_right_ne_nil _ (List.ne_nil_of_mem hmem)

theorem chars_number (n : Number) : ∀ c ∈ n.chars, IsNumberChar c := by
  have hsign : ∀ (negative : Prop) [Decidable negative] (c : Char),
      c ∈ (if negative then ['-'] else []) → IsNumberChar c := by
    intro negative _ c hc
    split at hc
    · rw [List.mem_singleton.mp hc]
      exact .inr (by decide)
    · cases hc
  intro c hc
  cases n with
  | whole w =>
    rcases List.mem_append.mp hc with hc | hc
    · exact hsign _ c hc
    · exact .inl (isDigit_of_mem_toDigits c hc)
  | double d =>
    rw [chars, Double.chars_eq] at hc
    rcases List.mem_append.mp hc with hc | hc
    · exact hsign _ c hc
    · exact Double.Decimal.chars_number d.magnitude_plain c hc

end Number
end Rulebook
