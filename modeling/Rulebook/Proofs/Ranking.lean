import Rulebook.Compiler

/-!
# The ranking of rules

Rules are ranked by descending priority, and rules of equal priority keep their order. This says
which list the ranking is, so leaving rules out before the ranking or after it comes to the same.
-/
namespace Rulebook

section Sorting

variable {α : Type} (key : α → Int)

theorem descending_trans (a b c : α) : decide (key b ≤ key a) = true →
    decide (key c ≤ key b) = true → decide (key c ≤ key a) = true := by
  simp only [decide_eq_true_eq]
  omega

theorem descending_total (a b : α) :
    (decide (key b ≤ key a) || decide (key a ≤ key b)) = true := by
  simp only [Bool.or_eq_true, decide_eq_true_eq]
  omega

theorem sorted_descends (items : List α) :
    (items.mergeSort fun a b => key b ≤ key a).Pairwise fun a b => key b ≤ key a := by
  simpa using List.pairwise_mergeSort (descending_trans key) (descending_total key) items

/-- Items of one key are sorted already, so they are found in their order after sorting. -/
theorem sorted_stable (items : List α) (k : Int) :
    ((items.mergeSort fun a b => key b ≤ key a).filter fun a => key a = k) =
      items.filter fun a => key a = k := by
  have hsorted : (items.filter fun a => key a = k).Pairwise
      fun a b => decide (key b ≤ key a) = true := by
    refine List.pairwise_of_forall_mem_list fun a ha b hb => ?_
    simp only [List.mem_filter, decide_eq_true_eq] at ha hb ⊢
    omega
  have hsublist := (List.sublist_mergeSort (descending_trans key) (descending_total key) hsorted
    List.filter_sublist).filter fun a => key a = k
  rw [List.filter_filter] at hsublist
  simp only [Bool.and_self] at hsublist
  refine (hsublist.eq_of_length ?_).symm
  exact ((List.mergeSort_perm items _).filter _).length_eq.symm

end Sorting

namespace Rule

/-- The rules in the order of descending priority; those of one priority stand as they were
given. -/
structure Ranks (ordered given : List Rule) : Prop where
  descending : ordered.Pairwise fun a b => b.priority ≤ a.priority
  stable : ∀ priority : Int, (ordered.filter fun rule => rule.priority = priority) =
    given.filter fun rule => rule.priority = priority

namespace Ranks

variable {ordered other given : List Rule}

theorem mem_iff (h : Ranks ordered given) {rule : Rule} : rule ∈ ordered ↔ rule ∈ given := by
  have hboth := congrArg (rule ∈ ·) (h.stable rule.priority)
  simpa using hboth

theorem filter (h : Ranks ordered given) (p : Rule → Bool) :
    Ranks (ordered.filter p) (given.filter p) where
  descending := h.descending.sublist List.filter_sublist
  stable priority := by
    have hswap : ∀ rules : List Rule,
        ((rules.filter p).filter fun rule => rule.priority = priority) =
          (rules.filter fun rule => rule.priority = priority).filter p := by
      intro rules
      simp only [List.filter_filter, Bool.and_comm]
    rw [hswap, hswap, h.stable priority]

/-- The first rules of two rankings are the same. -/
theorem head_eq {a b : Rule} {as bs : List Rule} (h : Ranks (a :: as) given)
    (h' : Ranks (b :: bs) given) : a = b := by
  have hbest : ∀ {best : Rule} {rest : List Rule}, Ranks (best :: rest) given →
      ∀ rule ∈ given, rule.priority ≤ best.priority := by
    intro best rest hranks rule hrule
    rcases List.mem_cons.mp (hranks.mem_iff.mpr hrule) with rfl | hrest
    · exact Int.le_refl _
    · exact List.rel_of_pairwise_cons hranks.descending hrest
  have hle : a.priority ≤ b.priority := hbest h' a (h.mem_iff.mp List.mem_cons_self)
  have hge : b.priority ≤ a.priority := hbest h b (h'.mem_iff.mp List.mem_cons_self)
  have hsame := (h.stable a.priority).trans (h'.stable a.priority).symm
  rw [List.filter_cons_of_pos (by simp), List.filter_cons_of_pos (by simp; omega)] at hsame
  exact (List.cons.inj hsame).1

/-- There is only one ranking. -/
theorem unique (h : Ranks ordered given) (h' : Ranks other given) : ordered = other := by
  induction ordered generalizing other given with
  | nil =>
    cases other with
    | nil => rfl
    | cons b bs => cases h.mem_iff.mpr (h'.mem_iff.mp List.mem_cons_self)
  | cons a as ih =>
    cases other with
    | nil => cases h'.mem_iff.mpr (h.mem_iff.mp List.mem_cons_self)
    | cons b bs =>
      cases h.head_eq h'
      have hrest : Ranks bs as := by
        refine ⟨(List.pairwise_cons.mp h'.descending).2, fun priority => ?_⟩
        have hsame := (h'.stable priority).trans (h.stable priority).symm
        simp only [List.filter_cons] at hsame
        split at hsame
        · exact (List.cons.inj hsame).2
        · exact hsame
      exact congrArg (a :: ·) (ih ⟨(List.pairwise_cons.mp h.descending).2, fun _ => rfl⟩ hrest)

/-- Rules of different priorities have no order to keep. -/
theorem of_perm (hperm : ordered.Perm given)
    (hdescending : ordered.Pairwise fun a b => b.priority < a.priority) : Ranks ordered given where
  descending := hdescending.imp Int.le_of_lt
  stable priority := by
    have hfiltered := hperm.filter fun rule => rule.priority = priority
    have hstrictly := hdescending.filter fun rule => rule.priority = priority
    have hsame : ∀ rule ∈ ordered.filter fun rule => rule.priority = priority,
        rule.priority = priority := fun rule hrule => by simpa using (List.mem_filter.mp hrule).2
    cases hfound : ordered.filter fun rule => rule.priority = priority with
    | nil =>
      rw [hfound] at hfiltered
      exact hfiltered.nil_eq
    | cons first rest =>
      rw [hfound] at hfiltered hstrictly hsame
      cases rest with
      | nil => exact hfiltered.singleton_eq
      | cons second others =>
        have hless := List.rel_of_pairwise_cons hstrictly List.mem_cons_self
        rw [hsame first (by simp), hsame second (by simp)] at hless
        exact absurd hless (Int.lt_irrefl priority)

end Ranks
end Rule

namespace Compiler

/-- The ranking of the rules that are not ignored. -/
theorem ranked_ranks (rules : List Rule) :
    Rule.Ranks (ranked rules) (rules.filter fun rule => !rule.isIgnored) :=
  ⟨sorted_descends Rule.priority _, sorted_stable Rule.priority _⟩

/-- Rules may be left out before the ranking or after it. -/
theorem ranked_filter (rules : List Rule) (p : Rule → Bool) :
    ranked (rules.filter fun rule => !rule.isIgnored && p rule) = (ranked rules).filter p := by
  have hgiven : ((rules.filter fun rule => !rule.isIgnored && p rule).filter
      fun rule => !rule.isIgnored) = (rules.filter fun rule => !rule.isIgnored).filter p := by
    rw [List.filter_filter, List.filter_filter]
    refine List.filter_congr fun rule _ => ?_
    cases rule.isIgnored <;> simp
  refine (ranked_ranks _).unique ?_
  rw [hgiven]
  exact (ranked_ranks rules).filter p

end Compiler
end Rulebook
