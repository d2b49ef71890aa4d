import Mathlib.Data.List.Nodup
import Mathlib.Data.List.Perm.Subperm
import Rulebook.Pattern.Matcher

/-!
# What the matcher finds

The matcher computes with sets of positions, and searches repetitions breadth first. From a set of
starts it arrives at a position just if some stretch from a start to that position matches
(`mem_ends`).
-/
namespace Rulebook.Pattern

variable {text : Array Char} {p q : Pattern} {i j k n size : Nat}

theorem Matches.bounds (h : Matches text p i j) : i ≤ j ∧ j ≤ text.size := by
  induction h with
  | nothing hi | look hi _ | stop hi => exact ⟨Nat.le_refl _, hi⟩
  | one hchar _ =>
    obtain ⟨hi, -⟩ := Array.getElem?_eq_some_iff.mp hchar
    omega
  | seq _ _ ihp ihq => omega
  | left _ ih | right _ ih | group _ ih => exact ih
  | again _ _ _ ihp ihrest => omega

/-- So many steps, one after the other. -/
def Times (R : Nat → Nat → Prop) : Nat → Nat → Nat → Prop
  | 0, i, j => i = j
  | n + 1, i, k => ∃ j, R i j ∧ Times R n j k

theorem matches_repeated_iff {least : Nat} {most : Option Nat} :
    Matches text (.repeated p least most) i k ↔
      i ≤ text.size ∧
        ∃ n, least ≤ n ∧ (∀ m, most = some m → n ≤ m) ∧ Times (Matches text p) n i k := by
  constructor
  · intro h
    refine ⟨Nat.le_trans h.bounds.1 h.bounds.2, ?_⟩
    generalize hwhole : Pattern.repeated p least most = whole at h
    induction h generalizing least most with
    | stop _ =>
      cases hwhole
      exact ⟨0, Nat.le_refl 0, fun _ _ => Nat.zero_le _, rfl⟩
    | again hmost hfirst _ _ ihrest =>
      cases hwhole
      obtain ⟨n, hleast, hbound, hrest⟩ := ihrest rfl
      refine ⟨n + 1, by omega, fun m hm => ?_, ⟨_, hfirst, hrest⟩⟩
      subst hm
      have := hbound (m - 1) rfl
      have : m ≠ 0 := fun hzero => hmost (congrArg some hzero)
      omega
    | nothing | one | look | seq | left | right | group => cases hwhole
  · rintro ⟨hi, n, hleast, hbound, htimes⟩
    induction n generalizing i least most with
    | zero =>
      cases htimes
      obtain rfl : least = 0 := by omega
      exact .stop hi
    | succ n ih =>
      obtain ⟨j, hfirst, hrest⟩ := htimes
      refine .again (fun hzero => ?_) hfirst (ih hfirst.bounds.2 (by omega) ?_ hrest)
      · have := hbound 0 hzero
        omega
      · intro m hm
        obtain ⟨m', hm', rfl⟩ := Option.map_eq_some_iff.mp hm
        have := hbound m' hm'
        omega

/-- A set of positions in a text of some length. -/
structure Positions (size : Nat) (set : List Nat) : Prop where
  nodup : set.Nodup
  bound : ∀ i ∈ set, i ≤ size

theorem Positions.length_le {set : List Nat} (h : Positions size set) : set.length ≤ size + 1 := by
  have hsub : set ⊆ List.range (size + 1) := fun i hi =>
    List.mem_range.mpr (Nat.lt_succ_of_le (h.bound i hi))
  have hlength := h.nodup.length_le_of_subset hsub
  rwa [List.length_range] at hlength

/-- From a set of positions the step leads to those that are related to one of them. -/
def Follows (size : Nat) (R : Nat → Nat → Prop) (step : List Nat → List Nat) : Prop :=
  ∀ set, Positions size set → Positions size (step set) ∧ ∀ j, j ∈ step set ↔ ∃ i ∈ set, R i j

section Steps

variable {R : Nat → Nat → Prop} {step : List Nat → List Nat} {set seen fresh : List Nat}

theorem mem_iff_of_sameMembers {a b : List Nat} (ha : a.Nodup) (h : sameMembers a b = true) :
    i ∈ a ↔ i ∈ b := by
  simp only [sameMembers, Bool.and_eq_true, decide_eq_true_eq, List.all_eq_true,
    List.contains_iff_mem] at h
  exact ((List.subperm_of_subset ha h.2).perm_of_length_le (Nat.le_of_eq h.1.symm)).mem_iff

theorem exists_times_succ_iff (hset : ∀ j, j ∈ fresh ↔ ∃ i ∈ set, R i j) :
    (∃ i ∈ set, Times R (n + 1) i k) ↔ ∃ j ∈ fresh, Times R n j k := by
  constructor
  · rintro ⟨i, hi, j, hfirst, hrest⟩
    exact ⟨j, (hset j).mpr ⟨i, hi, hfirst⟩, hrest⟩
  · rintro ⟨j, hj, hrest⟩
    obtain ⟨i, hi, hfirst⟩ := (hset j).mp hj
    exact ⟨i, hi, j, hfirst, hrest⟩

theorem mem_iff_times_zero : j ∈ set ↔ ∃ i ∈ set, Times R 0 i j :=
  ⟨fun hj => ⟨j, hj, rfl⟩, fun ⟨_, hi, hij⟩ => hij ▸ hi⟩

/-- A set that a step leaves as it is stays so. -/
theorem mem_iff_times (hset : ∀ j, j ∈ set ↔ ∃ i ∈ set, R i j) :
    j ∈ set ↔ ∃ i ∈ set, Times R n i j := by
  induction n with
  | zero => exact mem_iff_times_zero
  | succ n ih => rw [ih, exists_times_succ_iff hset]

theorem follows_rounds (h : Follows size R step) : Follows size (Times R n) (rounds step n) := by
  induction n with
  | zero => exact fun set hset => ⟨hset, fun j => mem_iff_times_zero⟩
  | succ n ih =>
    intro set hset
    obtain ⟨hnext, hmem⟩ := h set hset
    unfold rounds
    dsimp only
    split
    · next hsame =>
      have hstays : ∀ j, j ∈ set ↔ ∃ i ∈ set, R i j := fun j =>
        (mem_iff_of_sameMembers hset.nodup hsame).trans (hmem j)
      exact ⟨hset, fun j => mem_iff_times hstays⟩
    · obtain ⟨hrest, hreached⟩ := ih _ hnext
      exact ⟨hrest, fun j => (hreached j).trans (exists_times_succ_iff hmem).symm⟩

/-- What has been seen, with the part of it from which no step has been made. -/
structure Frontier (R : Nat → Nat → Prop) (seen fresh : List Nat) : Prop where
  fresh_seen : ∀ i ∈ fresh, i ∈ seen
  closed : ∀ i ∈ seen, i ∉ fresh → ∀ j, R i j → j ∈ seen

theorem Frontier.start : Frontier R set set := ⟨fun _ hi => hi, fun _ hi hnot => absurd hi hnot⟩

/-- The positions that a round finds and that were not seen before. -/
def discovered (step : List Nat → List Nat) (seen fresh : List Nat) : List Nat :=
  (step fresh).filter fun i => !seen.contains i

theorem mem_discovered (h : Follows size R step) (hfresh : Positions size fresh) :
    j ∈ discovered step seen fresh ↔ (∃ i ∈ fresh, R i j) ∧ j ∉ seen := by
  rw [discovered, List.mem_filter, (h fresh hfresh).2 j]
  simp

theorem Positions.discovered (h : Follows size R step) (hfresh : Positions size fresh) :
    Positions size (discovered step seen fresh) := by
  obtain ⟨hnodup, hbound⟩ := (h fresh hfresh).1
  exact ⟨hnodup.filter _, fun i hi => hbound i (List.mem_of_mem_filter hi)⟩

theorem Positions.append_discovered (h : Follows size R step) (hseen : Positions size seen)
    (hfresh : Positions size fresh) :
    Positions size (seen ++ Pattern.discovered step seen fresh) := by
  have hmore : Positions size (Pattern.discovered step seen fresh) := .discovered h hfresh
  refine ⟨List.nodup_append.mpr ⟨hseen.nodup, hmore.nodup, ?_⟩, ?_⟩
  · rintro i hi _ hj rfl
    exact ((mem_discovered h hfresh).mp hj).2 hi
  · intro i hi
    rcases List.mem_append.mp hi with hi | hi
    · exact hseen.bound i hi
    · exact hmore.bound i hi

theorem Frontier.advance (h : Follows size R step) (hfresh : Positions size fresh)
    (hfrontier : Frontier R seen fresh) :
    Frontier R (seen ++ discovered step seen fresh) (discovered step seen fresh) := by
  refine ⟨fun i hi => List.mem_append_right _ hi, fun i hi hnot j hij => ?_⟩
  have hseen : i ∈ seen := (List.mem_append.mp hi).resolve_right hnot
  rw [List.mem_append, mem_discovered h hfresh]
  by_cases hj : j ∈ seen
  · exact .inl hj
  · by_cases hold : i ∈ fresh
    · exact .inr ⟨⟨i, hold, hij⟩, hj⟩
    · exact .inl (hfrontier.closed i hseen hold j hij)

/-- Where a round discovers nothing, no step leads out of what has been seen. -/
theorem Frontier.closed_of_discovered_nil (h : Follows size R step) (hfresh : Positions size fresh)
    (hfrontier : Frontier R seen fresh) (hnil : discovered step seen fresh = []) :
    ∀ i ∈ seen, ∀ j, R i j → j ∈ seen := by
  have hadvanced := hfrontier.advance h hfresh
  rw [hnil, List.append_nil] at hadvanced
  exact fun i hi => hadvanced.closed i hi List.not_mem_nil

theorem upTo_succ : upTo step (n + 1) seen fresh =
    if discovered step seen fresh = [] then seen
    else upTo step n (seen ++ discovered step seen fresh) (discovered step seen fresh) := by
  rw [upTo]
  split
  · next hnil => exact (if_pos hnil).symm
  · next hmore => exact (if_neg hmore).symm

theorem mem_of_times (hclosed : ∀ i ∈ seen, ∀ j, R i j → j ∈ seen) (hi : i ∈ seen)
    (htimes : Times R n i j) : j ∈ seen := by
  induction n generalizing i with
  | zero => exact htimes ▸ hi
  | succ n ih =>
    obtain ⟨next, hfirst, hrest⟩ := htimes
    exact ih (hclosed i hi next hfirst) hrest

/-- The way out of what has been seen leads through a position that is new. -/
theorem Frontier.leave (hfrontier : Frontier R seen fresh) (hi : i ∈ seen)
    (htimes : Times R n i j) : j ∈ seen ∨ ∃ i ∈ fresh, ∃ m, m ≤ n ∧ Times R m i j := by
  induction n generalizing i with
  | zero => exact .inl (htimes ▸ hi)
  | succ n ih =>
    by_cases hnew : i ∈ fresh
    · exact .inr ⟨i, hnew, n + 1, Nat.le_refl _, htimes⟩
    · obtain ⟨next, hfirst, hrest⟩ := htimes
      rcases ih (hfrontier.closed i hi hnew next hfirst) hrest with hj | ⟨i', hi', m, hm, hrest'⟩
      · exact .inl hj
      · exact .inr ⟨i', hi', m, by omega, hrest'⟩

theorem Positions.upTo (h : Follows size R step) (hseen : Positions size seen)
    (hfresh : Positions size fresh) : Positions size (Pattern.upTo step n seen fresh) := by
  induction n generalizing seen fresh with
  | zero => exact hseen
  | succ n ih =>
    rw [upTo_succ]
    split
    · exact hseen
    · exact ih (hseen.append_discovered h hfresh) (.discovered h hfresh)

theorem mem_upTo_iff (h : Follows size R step) (hseen : Positions size seen)
    (hfresh : Positions size fresh) (hfrontier : Frontier R seen fresh) :
    j ∈ upTo step n seen fresh ↔ j ∈ seen ∨ ∃ i ∈ fresh, ∃ m, m ≤ n ∧ Times R m i j := by
  induction n generalizing seen fresh with
  | zero =>
    refine ⟨.inl, ?_⟩
    rintro (hj | ⟨i, hi, m, hm, htimes⟩)
    · exact hj
    · obtain rfl : m = 0 := by omega
      exact htimes ▸ hfrontier.fresh_seen i hi
  | succ n ih =>
    rw [upTo_succ]
    -- A round that discovers nothing has closed the set, so no more rounds are needed.
    split
    · next hnil =>
      refine ⟨.inl, ?_⟩
      rintro (hj | ⟨i, hi, m, -, htimes⟩)
      · exact hj
      · exact mem_of_times (hfrontier.closed_of_discovered_nil h hfresh hnil)
          (hfrontier.fresh_seen i hi) htimes
    · have hadvanced := hfrontier.advance h hfresh
      rw [ih (hseen.append_discovered h hfresh) (.discovered h hfresh) hadvanced]
      constructor
      · rintro (hj | ⟨i, hi, m, hm, htimes⟩)
        · rcases List.mem_append.mp hj with hj | hj
          · exact .inl hj
          · obtain ⟨⟨i, hi, hij⟩, -⟩ := (mem_discovered h hfresh).mp hj
            exact .inr ⟨i, hi, 1, by omega, j, hij, rfl⟩
        · obtain ⟨⟨start, hstart, hfirst⟩, -⟩ := (mem_discovered h hfresh).mp hi
          exact .inr ⟨start, hstart, m + 1, by omega, i, hfirst, htimes⟩
      · rintro (hj | ⟨i, hi, m, hm, htimes⟩)
        · exact .inl (List.mem_append_left _ hj)
        · rcases m with _ | m
          · exact .inl (List.mem_append_left _ (htimes ▸ hfrontier.fresh_seen i hi))
          · obtain ⟨next, hfirst, hrest⟩ := htimes
            have hnext : next ∈ seen ++ discovered step seen fresh := by
              rw [List.mem_append, mem_discovered h hfresh]
              by_cases hold : next ∈ seen
              · exact .inl hold
              · exact .inr ⟨⟨i, hi, hfirst⟩, hold⟩
            rcases hadvanced.leave hnext hrest with hj | ⟨i', hi', m', hm', hrest'⟩
            · exact .inl hj
            · exact .inr ⟨i', hi', m', by omega, hrest'⟩

/-- Every round but the last one discovers a position, so as many rounds as there are positions
discover them all. -/
theorem mem_upTo_iff_of_long (h : Follows size R step) (hseen : Positions size seen)
    (hfresh : Positions size fresh) (hfrontier : Frontier R seen fresh)
    (hlong : seen = [] ∨ size + 1 < n + seen.length) :
    j ∈ upTo step n seen fresh ↔ ∃ i ∈ seen, ∃ m, Times R m i j := by
  induction n generalizing seen fresh with
  | zero =>
    rcases hlong with rfl | hlong
    · simp [upTo]
    · have := hseen.length_le
      omega
  | succ n ih =>
    rw [upTo_succ]
    split
    · next hnil =>
      refine ⟨fun hj => ⟨j, hj, 0, rfl⟩, ?_⟩
      rintro ⟨i, hi, m, htimes⟩
      exact mem_of_times (hfrontier.closed_of_discovered_nil h hfresh hnil) hi htimes
    · next hmore =>
      have hfound := List.length_pos_iff.mpr hmore
      obtain ⟨found, hfound'⟩ := List.exists_mem_of_ne_nil _ hmore
      obtain ⟨⟨i, hi, -⟩, -⟩ := (mem_discovered h hfresh).mp hfound'
      have hnonempty : seen ≠ [] := List.ne_nil_of_mem (hfrontier.fresh_seen i hi)
      have hlong' := hlong.resolve_left hnonempty
      rw [ih (hseen.append_discovered h hfresh) (.discovered h hfresh)
        (hfrontier.advance h hfresh) (.inr (by rw [List.length_append]; omega))]
      constructor
      · rintro ⟨i, hi, m, htimes⟩
        rcases List.mem_append.mp hi with hi | hi
        · exact ⟨i, hi, m, htimes⟩
        · obtain ⟨⟨start, hstart, hfirst⟩, -⟩ := (mem_discovered h hfresh).mp hi
          exact ⟨start, hfrontier.fresh_seen start hstart, m + 1, i, hfirst, htimes⟩
      · rintro ⟨i, hi, htimes⟩
        exact ⟨i, List.mem_append_left _ hi, htimes⟩

end Steps

/-- No repetition has a greatest count below its least one. -/
def Counted : Pattern → Prop
  | nothing | one _ | look _ => True
  | seq p q | either p q => p.Counted ∧ q.Counted
  | repeated p least most => p.Counted ∧ ∀ n, most = some n → least ≤ n
  | group _ p => p.Counted

theorem follows_congr {R R' : Nat → Nat → Prop} {step : List Nat → List Nat}
    (h : Follows size R step) (hR : ∀ i j, i ≤ size → (R i j ↔ R' i j)) :
    Follows size R' step := by
  intro set hset
  obtain ⟨hstep, hmem⟩ := h set hset
  refine ⟨hstep, fun j => (hmem j).trans (exists_congr fun i => and_congr_right fun hi => ?_)⟩
  exact hR i j (hset.bound i hi)

theorem follows_comp {R R' : Nat → Nat → Prop} {step step' : List Nat → List Nat}
    (h : Follows size R step) (h' : Follows size R' step') :
    Follows size (fun i k => ∃ j, R i j ∧ R' j k) fun set => step' (step set) := by
  intro set hset
  obtain ⟨hstep, hmem⟩ := h set hset
  obtain ⟨hstep', hmem'⟩ := h' _ hstep
  refine ⟨hstep', fun k => (hmem' k).trans ?_⟩
  constructor
  · rintro ⟨j, hj, hjk⟩
    obtain ⟨i, hi, hij⟩ := (hmem j).mp hj
    exact ⟨i, hi, j, hij, hjk⟩
  · rintro ⟨i, hi, j, hij, hjk⟩
    exact ⟨j, (hmem j).mpr ⟨i, hi, hij⟩, hjk⟩

theorem follows_upTo {R : Nat → Nat → Prop} {step : List Nat → List Nat}
    (h : Follows size R step) (n : Nat) :
    Follows size (fun i j => ∃ m, m ≤ n ∧ Times R m i j) fun set => upTo step n set set := by
  intro set hset
  refine ⟨hset.upTo h hset, fun j => (mem_upTo_iff h hset hset .start).trans ?_⟩
  constructor
  · rintro (hj | hreached)
    · exact ⟨j, hj, 0, Nat.zero_le n, rfl⟩
    · exact hreached
  · exact .inr

theorem follows_upTo_all {R : Nat → Nat → Prop} {step : List Nat → List Nat}
    (h : Follows size R step) :
    Follows size (fun i j => ∃ m, Times R m i j) fun set => upTo step (size + 1) set set := by
  intro set hset
  refine ⟨hset.upTo h hset, fun j => mem_upTo_iff_of_long h hset hset .start ?_⟩
  rcases Nat.eq_zero_or_pos set.length with hnone | hsome
  · exact .inl (List.length_eq_zero_iff.mp hnone)
  · exact .inr (by omega)

theorem times_add {R : Nat → Nat → Prop} {m : Nat} :
    Times R (m + n) i k ↔ ∃ j, Times R m i j ∧ Times R n j k := by
  induction m generalizing i with
  | zero => simp [Times]
  | succ m ih =>
    rw [Nat.succ_add, Times]
    constructor
    · rintro ⟨next, hfirst, hrest⟩
      obtain ⟨j, hj, hk⟩ := ih.mp hrest
      exact ⟨j, ⟨next, hfirst, hj⟩, hk⟩
    · rintro ⟨j, ⟨next, hfirst, hj⟩, hk⟩
      exact ⟨next, hfirst, ih.mpr ⟨j, hj, hk⟩⟩

theorem mem_join {a b : List Nat} : j ∈ join a b ↔ j ∈ a ∨ j ∈ b := by
  unfold join
  induction b generalizing a with
  | nil => simp
  | cons i b ih =>
    rw [List.foldl_cons, ih, List.mem_cons]
    split
    · next hold =>
      have hi : i ∈ a := List.contains_iff_mem.mp hold
      constructor
      · rintro (hj | hj)
        · exact .inl hj
        · exact .inr (.inr hj)
      · rintro (hj | rfl | hj)
        · exact .inl hj
        · exact .inl hi
        · exact .inr hj
    · rw [List.mem_append, List.mem_singleton, or_assoc]

theorem nodup_join {a b : List Nat} (ha : a.Nodup) : (join a b).Nodup := by
  unfold join
  induction b generalizing a with
  | nil => exact ha
  | cons i b ih =>
    rw [List.foldl_cons]
    split
    · exact ih ha
    · next hnew =>
      refine ih (List.nodup_append.mpr ⟨ha, List.nodup_singleton i, ?_⟩)
      rintro j hj _ hi rfl
      obtain rfl := List.mem_singleton.mp hi
      exact hnew (List.contains_iff_mem.mpr hj)

theorem follows_one (cls : CharClass) :
    Follows text.size (Matches text (.one cls)) (ends text (.one cls)) := by
  intro set hset
  have hmem : ∀ j, j ∈ ends text (.one cls) set ↔ ∃ i ∈ set, Matches text (.one cls) i j := by
    intro j
    rw [ends, List.mem_filterMap]
    refine exists_congr fun i => and_congr_right fun _ => ?_
    constructor
    · intro hfound
      split at hfound
      · next c hchar =>
        split at hfound
        · next hhas =>
          cases hfound
          exact .one hchar hhas
        · cases hfound
      · cases hfound
    · rintro ⟨⟩
      next hchar hhas => simp [hchar, hhas]
  refine ⟨⟨?_, fun j hj => ?_⟩, hmem⟩
  · rw [ends]
    refine List.Nodup.filterMap (fun i i' j hj hj' => ?_) hset.nodup
    split at hj
    · split at hj
      · cases hj
        split at hj'
        · split at hj'
          · cases hj'
            rfl
          · cases hj'
        · cases hj'
      · cases hj
    · cases hj
  · obtain ⟨i, -, hmatch⟩ := (hmem j).mp hj
    exact hmatch.bounds.2

theorem follows_look (condition : Look) :
    Follows text.size (Matches text (.look condition)) (ends text (.look condition)) := by
  intro set hset
  refine ⟨⟨hset.nodup.filter _, fun i hi => hset.bound i (List.mem_of_mem_filter hi)⟩, fun j => ?_⟩
  rw [ends, List.mem_filter]
  constructor
  · rintro ⟨hj, hholds⟩
    exact ⟨j, hj, .look (hset.bound j hj) hholds⟩
  · rintro ⟨i, hi, ⟨⟩⟩
    next hholds => exact ⟨hi, hholds⟩

theorem follows_either (hp : Follows text.size (Matches text p) (ends text p))
    (hq : Follows text.size (Matches text q) (ends text q)) :
    Follows text.size (Matches text (.either p q)) (ends text (.either p q)) := by
  intro set hset
  obtain ⟨hleft, hmemp⟩ := hp set hset
  obtain ⟨hright, hmemq⟩ := hq set hset
  have hmem : ∀ j, j ∈ ends text (.either p q) set ↔ ∃ i ∈ set, Matches text (.either p q) i j := by
    intro j
    rw [ends, mem_join, hmemp, hmemq]
    constructor
    · rintro (⟨i, hi, hmatch⟩ | ⟨i, hi, hmatch⟩)
      · exact ⟨i, hi, .left hmatch⟩
      · exact ⟨i, hi, .right hmatch⟩
    · rintro ⟨i, hi, hmatch⟩
      cases hmatch with
      | left hmatch => exact .inl ⟨i, hi, hmatch⟩
      | right hmatch => exact .inr ⟨i, hi, hmatch⟩
  refine ⟨⟨nodup_join hleft.nodup, fun j hj => ?_⟩, hmem⟩
  obtain ⟨i, -, hmatch⟩ := (hmem j).mp hj
  exact hmatch.bounds.2

/-- The least count is taken in rounds, and what the greatest one leaves by the search. -/
theorem follows_repeated {least : Nat} {most : Option Nat} (hmost : ∀ n, most = some n → least ≤ n)
    (hp : Follows text.size (Matches text p) (ends text p)) :
    Follows text.size (Matches text (.repeated p least most))
      (ends text (.repeated p least most)) := by
  cases most with
  | none =>
    have hsteps := follows_comp (follows_rounds (n := least) hp) (follows_upTo_all hp)
    refine follows_congr hsteps fun i k hi => ?_
    rw [matches_repeated_iff]
    constructor
    · rintro ⟨j, hleast, n, hmore⟩
      exact ⟨hi, least + n, by omega, fun m hm => (nomatch hm), times_add.mpr ⟨j, hleast, hmore⟩⟩
    · rintro ⟨-, n, hleast, -, htimes⟩
      obtain ⟨more, rfl⟩ := Nat.exists_eq_add_of_le hleast
      obtain ⟨j, hfirst, hrest⟩ := times_add.mp htimes
      exact ⟨j, hfirst, more, hrest⟩
  | some most =>
    have hroom := hmost most rfl
    have hsteps := follows_comp (follows_rounds (n := least) hp) (follows_upTo hp (most - least))
    refine follows_congr hsteps fun i k hi => ?_
    rw [matches_repeated_iff]
    constructor
    · rintro ⟨j, hleast, n, hn, hmore⟩
      refine ⟨hi, least + n, by omega, fun m hm => ?_, times_add.mpr ⟨j, hleast, hmore⟩⟩
      cases hm
      omega
    · rintro ⟨-, n, hleast, hbound, htimes⟩
      obtain ⟨more, rfl⟩ := Nat.exists_eq_add_of_le hleast
      obtain ⟨j, hfirst, hrest⟩ := times_add.mp htimes
      have := hbound most rfl
      exact ⟨j, hfirst, more, by omega, hrest⟩

theorem follows_ends (hcounted : p.Counted) : Follows text.size (Matches text p) (ends text p) := by
  induction p with
  | nothing =>
    intro set hset
    refine ⟨hset, fun j => ⟨fun hj => ⟨j, hj, .nothing (hset.bound j hj)⟩, ?_⟩⟩
    rintro ⟨i, hi, ⟨⟩⟩
    exact hi
  | one cls => exact follows_one cls
  | look condition => exact follows_look condition
  | seq p q ihp ihq =>
    have hsteps := follows_comp (ihp hcounted.1) (ihq hcounted.2)
    refine follows_congr hsteps fun i k _ => ?_
    exact ⟨fun ⟨j, hij, hjk⟩ => .seq hij hjk, fun | .seq hij hjk => ⟨_, hij, hjk⟩⟩
  | either p q ihp ihq => exact follows_either (ihp hcounted.1) (ihq hcounted.2)
  | repeated p least most ih => exact follows_repeated hcounted.2 (ih hcounted.1)
  | group number p ih =>
    exact follows_congr (ih hcounted) fun i j _ => ⟨.group, fun | .group hmatch => hmatch⟩

/-- The matcher finds a match just if there is one. -/
theorem occursIn_iff (hcounted : p.Counted) (text : String) :
    p.occursIn text = true ↔ ∃ i j, Matches text.toList.toArray p i j := by
  have hall : Positions text.toList.toArray.size (List.range (text.toList.toArray.size + 1)) :=
    ⟨List.nodup_range, fun i hi => Nat.le_of_lt_succ (List.mem_range.mp hi)⟩
  obtain ⟨-, hmem⟩ := follows_ends hcounted _ hall
  unfold occursIn
  rw [Bool.not_eq_true', List.isEmpty_eq_false_iff, ne_eq, List.eq_nil_iff_forall_not_mem]
  push Not
  constructor
  · rintro ⟨j, hj⟩
    obtain ⟨i, -, hmatch⟩ := (hmem j).mp hj
    exact ⟨i, j, hmatch⟩
  · rintro ⟨i, j, hmatch⟩
    have hi : i < text.toList.toArray.size + 1 := by
      have := hmatch.bounds
      omega
    exact ⟨j, (hmem j).mpr ⟨i, List.mem_range.mpr hi, hmatch⟩⟩

end Rulebook.Pattern
