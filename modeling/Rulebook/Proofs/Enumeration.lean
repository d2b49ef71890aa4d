import Rulebook.Proofs.Generation

/-!
# Every combination once

The cross product gives as many tuples as there are combinations of facts and then no more, however
often it is asked. The tuple of a number has the facts that the digits of the number count, and each
choice of one fact for every group is that of exactly one number.
-/
namespace Rulebook.CrossProduct

variable {groups : List FactGroup} {digits : List Nat} {n : Nat}

/-- The generator when it has been asked for a tuple some times. Asking in vain changes nothing. -/
def asked (start : CrossProduct) : Nat → CrossProduct
  | 0 => start
  | n + 1 => ((start.asked n).next?.map Prod.snd).getD (start.asked n)

/-- What the generator gives when it is asked for one more tuple. -/
def answer? (start : CrossProduct) (n : Nat) : Option Tuple :=
  (start.asked n).next?.map Prod.fst

/-- The generator counts up to the last combination and stays there. -/
theorem asked_counted (groups : List FactGroup) (n : Nat) :
    (counted groups 0).asked n = counted groups (min n (total groups)) := by
  induction n with
  | zero => rw [asked, Nat.zero_min]
  | succ n ih =>
    rw [asked, ih]
    by_cases hn : n < total groups
    · rw [Nat.min_eq_left (Nat.le_of_lt hn), next?_counted hn, Nat.min_eq_left hn]
      rfl
    · have hleast : min n (total groups) = total groups := by omega
      have hleast' : min (n + 1) (total groups) = total groups := by omega
      rw [hleast, hleast', next?_counted_total]
      rfl

theorem answer?_counted (groups : List FactGroup) (n : Nat) :
    (counted groups 0).answer? n =
      if n < total groups then some (combination groups n) else none := by
  rw [answer?, asked_counted]
  split
  · next hn =>
    rw [Nat.min_eq_left (Nat.le_of_lt hn), next?_counted hn]
    rfl
  · next hn =>
    rw [Nat.min_eq_right (by omega), next?_counted_total]
    rfl

/-- A name that none of the groups has stays bound as it is. -/
theorem get?_bind_of_not_mem {name : String} (h : name ∉ groups.map FactGroup.name)
    (tuple : Tuple) (digits : List Nat) :
    Table.get? (bind tuple groups digits) name = Table.get? tuple name := by
  induction groups generalizing tuple digits with
  | nil => rfl
  | cons group rest ih =>
    rw [List.map_cons, List.mem_cons, not_or] at h
    cases digits with
    | nil => rfl
    | cons digit digits => rw [bind, ih h.2, Table.get?_put_of_ne _ _ (Ne.symm h.1)]

/-- Where the groups have names of their own, each is bound to the fact that its digit counts. -/
theorem Counts.get?_bind_of_nodup (h : Counts groups digits)
    (hnames : (groups.map FactGroup.name).Nodup) {tuple : Tuple} {i digit : Nat}
    {group : FactGroup} (hgroup : groups[i]? = some group) (hdigit : digits[i]? = some digit) :
    Table.get? (bind tuple groups digits) group.name = group.instances[digit]? := by
  induction h generalizing tuple i with
  | nil => cases hgroup
  | @cons first count rest _ hcount _ ih =>
    rw [List.map_cons, List.nodup_cons] at hnames
    cases i with
    | zero =>
      obtain rfl : first = group := Option.some.inj hgroup
      obtain rfl : count = digit := Option.some.inj hdigit
      rw [bind, get?_bind_of_not_mem hnames.1, Table.get?_put_self,
        List.getElem?_eq_getElem hcount, Option.getD_some]
    | succ i => exact ih hnames.2 hgroup hdigit

theorem get?_combination (hnames : (groups.map FactGroup.name).Nodup) (hn : n < total groups)
    {i : Nat} {group : FactGroup} (hgroup : groups[i]? = some group) :
    Table.get? (combination groups n) group.name =
      group.instances[n / total (groups.take i) % group.instances.length]? := by
  refine (counts_digitsOf hn).get?_bind_of_nodup hnames hgroup ?_
  rw [getElem?_digitsOf, hgroup]
  rfl

/-- The digits of a number, one by one. -/
theorem Counts.digitsOf_eq_iff (h : Counts groups digits) :
    digitsOf groups n = digits ↔ ∀ i group, groups[i]? = some group →
      digits[i]? = some (n / total (groups.take i) % group.instances.length) := by
  constructor
  · rintro rfl i group hgroup
    rw [getElem?_digitsOf, hgroup]
    rfl
  · intro hdigits
    refine List.ext_getElem? fun i => ?_
    rw [getElem?_digitsOf]
    cases hgroup : groups[i]? with
    | none =>
      have hlength : digits.length ≤ i := h.length_eq ▸ List.getElem?_eq_none_iff.mp hgroup
      rw [List.getElem?_eq_none hlength]
      rfl
    | some group => exact (hdigits i group hgroup).symm

/-- The cross product gives one tuple for each combination and then none. In the tuple of a number the
names are bound to the facts at the positions that the number counts, and each combination of
positions has exactly one number. -/
theorem combinations_enumerated (hnames : (groups.map FactGroup.name).Nodup)
    (hfilled : FactGroup.Filled groups) :
    ∃ start, make groups = .ok start ∧
      (∀ n < total groups, ∃ tuple, start.answer? n = some tuple ∧
        (∀ i group, groups[i]? = some group → Table.get? tuple group.name =
          group.instances[n / total (groups.take i) % group.instances.length]?) ∧
        ∀ name, name ∉ groups.map FactGroup.name → Table.get? tuple name = none) ∧
      (∀ n, total groups ≤ n → start.answer? n = none) ∧
      ∀ positions, Counts groups positions → ∃! n, n < total groups ∧
        ∀ i group, groups[i]? = some group →
          positions[i]? = some (n / total (groups.take i) % group.instances.length) := by
  refine ⟨counted groups 0, make_eq_counted hfilled, fun n hn => ?_, fun n hn => ?_,
    fun positions hpositions => ?_⟩
  · refine ⟨combination groups n, ?_, fun i group hgroup => get?_combination hnames hn hgroup,
      fun name hname => ?_⟩
    · rw [answer?_counted, if_pos hn]
    · rw [combination, get?_bind_of_not_mem hname, Table.get?_nil]
  · rw [answer?_counted, if_neg (Nat.not_lt.mpr hn)]
  · obtain ⟨n, hn, hdigits⟩ := exists_digitsOf hpositions
    refine ⟨n, ⟨hn, hpositions.digitsOf_eq_iff.mp hdigits⟩, fun m hm => ?_⟩
    have hsame := hpositions.digitsOf_eq_iff.mpr hm.2
    exact digitsOf_inj hm.1 hn (hsame.trans hdigits.symm)

/-- Two rows with three bins each. -/
def rowsAndBins : List FactGroup :=
  [⟨"row", [.ofNat 1, .ofNat 2]⟩, ⟨"bin", [.ofNat 3, .ofNat 4, .ofNat 5]⟩]

/-- Of the six tuples, the one of number 3 has the second row and the second bin. -/
theorem rowsAndBins_enumerated :
    (rowsAndBins.map FactGroup.name).Nodup ∧ FactGroup.Filled rowsAndBins ∧
    ∃ start, make rowsAndBins = .ok start ∧
      (∃ tuple, start.answer? 3 = some tuple ∧
        Table.get? tuple "row" = some (.ofNat 2) ∧ Table.get? tuple "bin" = some (.ofNat 4)) ∧
      start.answer? 6 = none := by
  have hnames : (rowsAndBins.map FactGroup.name).Nodup := by decide
  have hfilled : FactGroup.Filled rowsAndBins := by simp [FactGroup.Filled, rowsAndBins]
  obtain ⟨start, hmake, hgives, hends, -⟩ := combinations_enumerated hnames hfilled
  obtain ⟨tuple, htuple, hbound, -⟩ := hgives 3 (by decide)
  exact ⟨hnames, hfilled, start, hmake, ⟨tuple, htuple, hbound 0 _ rfl, hbound 1 _ rfl⟩,
    hends 6 (by decide)⟩

end Rulebook.CrossProduct
