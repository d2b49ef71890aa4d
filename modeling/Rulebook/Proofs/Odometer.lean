import Rulebook.Proofs.Tuples

/-!
# Counting through combinations

The digits of the cross product are those of a number in a mixed base: each group counts modulo the
number of its facts, and the first one turns fastest. Advancing goes from a number to the next one
(`advance_digitsOf`), so the digits run through all numbers below the number of combinations, and
each combination has its number (`exists_digitsOf`), and only one (`digitsOf_inj`).
-/
namespace Rulebook.CrossProduct

variable {groups : List FactGroup} {digits : List Nat} {n : Nat}

/-- The digits of a number. -/
def digitsOf : List FactGroup → Nat → List Nat
  | [], _ => []
  | group :: rest, n => n % group.instances.length :: digitsOf rest (n / group.instances.length)

theorem digitsOf_zero (groups : List FactGroup) : digitsOf groups 0 = groups.map fun _ => 0 := by
  induction groups with
  | nil => rfl
  | cons group rest ih => rw [digitsOf, Nat.zero_mod, Nat.zero_div, ih, List.map_cons]

theorem total_cons (group : FactGroup) (rest : List FactGroup) :
    total (group :: rest) = group.instances.length * total rest := rfl

theorem length_pos_of_lt_total {group : FactGroup} {rest : List FactGroup}
    (h : n < total (group :: rest)) : 0 < group.instances.length :=
  Nat.pos_of_mul_pos_right (Nat.zero_lt_of_lt h)

theorem div_lt_total {group : FactGroup} {rest : List FactGroup} (h : n < total (group :: rest)) :
    n / group.instances.length < total rest :=
  Nat.div_lt_of_lt_mul h

theorem counts_digitsOf (h : n < total groups) : Counts groups (digitsOf groups n) := by
  induction groups generalizing n with
  | nil => exact .nil
  | cons group rest ih =>
    exact .cons (Nat.mod_lt _ (length_pos_of_lt_total h)) (ih (div_lt_total h))

/-- The digits turn over just at the last combination. -/
theorem advance_digitsOf (h : n < total groups) :
    advance groups (digitsOf groups n) =
      (digitsOf groups (n + 1), decide (n + 1 = total groups)) := by
  induction groups generalizing n with
  | nil =>
    obtain rfl : n = 0 := Nat.lt_one_iff.mp h
    rfl
  | cons group rest ih =>
    have hpos := length_pos_of_lt_total h
    have hquotient := div_lt_total h
    have hrest := ih hquotient
    rw [digitsOf, advance, digitsOf, total_cons]
    generalize group.instances.length = size at hpos hquotient hrest ⊢
    have hn := Nat.mod_add_div n size
    split
    · next hnext =>
      obtain ⟨hdiv, hmod⟩ := (Nat.div_mod_unique hpos).mpr
        ⟨(by omega : n % size + 1 + size * (n / size) = n + 1), hnext⟩
      have hnot : ¬ n + 1 = size * total rest := by
        have := Nat.mul_le_mul_left size hquotient
        rw [Nat.mul_succ] at this
        omega
      rw [hdiv, hmod, decide_eq_false hnot]
    · next hlast =>
      have hlt := Nat.mod_lt n hpos
      have hn' : 0 + size * (n / size + 1) = n + 1 := by
        rw [Nat.mul_succ]
        omega
      obtain ⟨hdiv, hmod⟩ := (Nat.div_mod_unique hpos).mpr ⟨hn', hpos⟩
      have hturned : n + 1 = size * total rest ↔ n / size + 1 = total rest := by
        rw [← hn', Nat.zero_add, Nat.mul_right_inj (Nat.ne_of_gt hpos)]
      rw [hrest, hdiv, hmod, decide_eq_decide.mpr hturned]

/-- Every combination of digits stands for a number below the number of combinations. -/
theorem exists_digitsOf (h : Counts groups digits) :
    ∃ n < total groups, digitsOf groups n = digits := by
  induction h with
  | nil => exact ⟨0, Nat.zero_lt_one, rfl⟩
  | @cons group digit rest _ hdigit _ ih =>
    obtain ⟨n, hn, rfl⟩ := ih
    have hpos := Nat.zero_lt_of_lt hdigit
    obtain ⟨hdiv, hmod⟩ := (Nat.div_mod_unique hpos).mpr
      ⟨(rfl : digit + group.instances.length * n = _), hdigit⟩
    refine ⟨digit + group.instances.length * n, ?_, ?_⟩
    · rw [total_cons]
      calc digit + group.instances.length * n
          < group.instances.length * (n + 1) := by rw [Nat.mul_succ]; omega
        _ ≤ group.instances.length * total rest := Nat.mul_le_mul_left _ hn
    · rw [digitsOf, hdiv, hmod]

/-- No two numbers below the number of combinations have the same digits. -/
theorem digitsOf_inj {m : Nat} (hm : m < total groups) (hn : n < total groups)
    (h : digitsOf groups m = digitsOf groups n) : m = n := by
  induction groups generalizing m n with
  | nil =>
    rw [Nat.lt_one_iff.mp hm, Nat.lt_one_iff.mp hn]
  | cons group rest ih =>
    obtain ⟨hmod, hrest⟩ := List.cons.inj h
    have hdiv := ih (div_lt_total hm) (div_lt_total hn) hrest
    rw [← Nat.mod_add_div m group.instances.length, hmod, hdiv, Nat.mod_add_div]

/-- Each digit counts how often the groups before it have turned over. -/
theorem getElem?_digitsOf (groups : List FactGroup) (n i : Nat) :
    (digitsOf groups n)[i]? = groups[i]?.map fun group =>
      n / total (groups.take i) % group.instances.length := by
  induction groups generalizing n i with
  | nil => simp [digitsOf]
  | cons group rest ih =>
    cases i with
    | zero => simp [digitsOf, total]
    | succ i =>
      rw [digitsOf, List.getElem?_cons_succ, ih, List.getElem?_cons_succ, List.take_succ_cons,
        total_cons]
      simp only [Nat.div_div_eq_div_mul]

end Rulebook.CrossProduct
