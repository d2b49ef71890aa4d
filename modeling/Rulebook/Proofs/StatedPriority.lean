import Rulebook.Proofs.LenientLoading

/-!
# Stated priorities

A ruleset has its rules in the order of their priorities, and those of one priority in the order in
which they were given. A priority is read as a signed integer. An integer that needs the 64th bit
counts as zero, though the attribute accepts it. So a rule that states such an integer may stand
behind rules that state less; `priorities_followed` says behind which.
-/
namespace Rulebook

/-- The integer that a rule states as its priority. -/
def Rule.statedPriority? (rule : Rule) : Option Whole :=
  match (rule.attribute? "priority").map Attribute.value with
  | some (.number (.whole stated)) => some stated
  | _ => none

theorem Rule.priority_of_stated {rule : Rule} {stated : Whole}
    (h : rule.statedPriority? = some stated) :
    rule.priority = if fitsSigned stated.value then stated.value else 0 := by
  unfold statedPriority? at h
  split at h
  · next whole hvalue =>
    obtain ⟨entry, hentry, hnumber⟩ := Option.map_eq_some_iff.mp hvalue
    obtain rfl : whole = stated := Option.some.inj h
    rw [priority, hentry]
    simp only [Option.bind_some, hnumber, Json.signed?, Json.number?, Number.signed?]
    split <;> rfl
  · cases h

/-- Of two rules with the places at which they were given, the one that is ranked first. -/
def Rule.Precedes (first second : Rule × Nat) : Prop :=
  second.1.priority < first.1.priority ∨
    second.1.priority = first.1.priority ∧ first.2 < second.2

namespace Compiler

variable {σ : Type} {compiler : Compiler σ} {now : Instant} {rules : List Rule}
  {ruleset : Ruleset σ}

/-- The rules that are not ignored, with the places at which they were given. -/
def given (rules : List Rule) : List (Rule × Nat) :=
  rules.zipIdx.filter fun entry => !entry.1.isIgnored

/-- The ranking with the places at which the rules were given. -/
def rankedPlaces (rules : List Rule) : List (Rule × Nat) :=
  (given rules).mergeSort fun a b => b.1.priority ≤ a.1.priority

theorem mem_rankedPlaces {entry : Rule × Nat} :
    entry ∈ rankedPlaces rules ↔ entry ∈ given rules :=
  List.mem_mergeSort

theorem rule_of_mem_given {entry : Rule × Nat} (h : entry ∈ given rules) :
    rules[entry.2]? = some entry.1 :=
  List.mem_zipIdx_iff_getElem?.mp (List.mem_filter.mp h).1

theorem given_increases (rules : List Rule) : (given rules).Pairwise fun a b => a.2 < b.2 := by
  have hplaces : (rules.zipIdx.map Prod.snd).Pairwise (· < ·) := by
    rw [List.zipIdx_map_snd]
    exact List.pairwise_lt_range'
  exact (List.pairwise_map.mp hplaces).filter _

theorem nodup_rankedPlaces (rules : List Rule) : ((rankedPlaces rules).map Prod.snd).Nodup := by
  have hgiven : ((given rules).map Prod.snd).Nodup :=
    List.pairwise_map.mpr ((given_increases rules).imp Nat.ne_of_lt)
  exact ((List.mergeSort_perm (given rules) _).map Prod.snd).nodup_iff.mpr hgiven

theorem map_fst_rankedPlaces (rules : List Rule) :
    (rankedPlaces rules).map Prod.fst = ranked rules := by
  have hgiven : (given rules).map Prod.fst = rules.filter fun rule => !rule.isIgnored := by
    conv_rhs => rw [← List.zipIdx_map_fst 0 rules, List.filter_map]
    rfl
  unfold rankedPlaces ranked
  rw [← hgiven]
  exact List.map_mergeSort fun _ _ _ _ => rfl

/-- A rule is ranked before those of lesser priority, and before those of its own priority that were
given later. -/
theorem rankedPlaces_precedes (rules : List Rule) :
    (rankedPlaces rules).Pairwise Rule.Precedes := by
  have hdescends := sorted_descends (fun entry : Rule × Nat => entry.1.priority) (given rules)
  have hgiven := given_increases rules
  rw [List.pairwise_iff_forall_sublist] at hdescends hgiven ⊢
  intro a b hpair
  rcases Int.lt_or_eq_of_le (hdescends hpair) with hless | hsame
  · exact .inl hless
  · refine .inr ⟨hsame, hgiven ?_⟩
    have hfiltered := hpair.filter fun entry => entry.1.priority = a.1.priority
    rw [List.filter_eq_self.mpr (by simp [hsame]), rankedPlaces,
      sorted_stable (fun entry : Rule × Nat => entry.1.priority)] at hfiltered
    exact hfiltered.trans List.filter_sublist

/-- Where the rules of a ruleset were given: each is compiled from the rule at its place in the list,
and no place serves two of them. -/
structure DrawsFrom (compiler : Compiler σ) (rules : List Rule) (ruleset : Ruleset σ)
    (origins : List Nat) : Prop where
  once : origins.Nodup
  compiled : (origins.mapIdx fun place origin => rules[origin]?.map (compiler.compile place)) =
    ruleset.rules.map fun rule => some (.ok rule)

/-- Compiling keeps the order of the ranking. -/
theorem exists_drawsFrom (h : compiler.compileAll now rules = .ok ruleset) :
    ∃ entries : List (Rule × Nat), entries.Pairwise Rule.Precedes ∧
      (∀ entry ∈ entries, rules[entry.2]? = some entry.1) ∧
      compiler.DrawsFrom rules ruleset (entries.map Prod.snd) := by
  obtain ⟨chosen, -, hkept⟩ := compiler.exists_chooses now (ranked rules)
  have hloads := compileAll_loads h
  rw [hkept, ← map_fst_rankedPlaces, List.filter_map] at hloads
  have hsublist : ((rankedPlaces rules).filter (chosen ∘ Prod.fst)).Sublist (rankedPlaces rules) :=
    List.filter_sublist
  generalize (rankedPlaces rules).filter (chosen ∘ Prod.fst) = entries at hloads hsublist
  have hrules : ∀ entry ∈ entries, rules[entry.2]? = some entry.1 := fun entry hentry =>
    rule_of_mem_given (mem_rankedPlaces.mp (hsublist.subset hentry))
  refine ⟨entries, (rankedPlaces_precedes rules).sublist hsublist, hrules,
    (nodup_rankedPlaces rules).sublist (hsublist.map Prod.snd), ?_⟩
  refine List.ext_getElem (by simpa using hloads.length_eq.symm) fun place hplace hplace' => ?_
  rw [List.length_mapIdx, List.length_map] at hplace
  rw [List.length_map] at hplace'
  have hcompiled : compiler.compile place entries[place].1 = .ok ruleset.rules[place] := by
    simpa [hplace, hplace'] using congrArg (·[place]?) hloads.rules
  simp [hrules entries[place] (List.getElem_mem hplace), hcompiled]

end Compiler

/-- A rule of a ruleset that states its priority: where it stands, where it was given, and the
integer that it states. -/
structure Standing where
  place : Nat
  origin : Nat
  priority : Whole

namespace Standing

def Of (rules : List Rule) (origins : List Nat) (standing : Standing) : Prop :=
  origins[standing.place]? = some standing.origin ∧
    rules[standing.origin]?.bind Rule.statedPriority? = some standing.priority

/-- What the stated integer counts for in the ranking. -/
def weight (standing : Standing) : Int :=
  if fitsSigned standing.priority.value then standing.priority.value else 0

/-- A greater integer comes first, and equal ones keep the order in which they were given. -/
def InOrder (first second : Standing) : Prop :=
  (second.priority.value < first.priority.value → first.place < second.place) ∧
    (second.priority.value = first.priority.value →
      (first.place < second.place ↔ first.origin < second.origin))

/-- The greater integer needs the 64th bit, and the other one is positive, or was given before it
and counts as zero too. -/
def Overlooked (first second : Standing) : Prop :=
  second.priority.value < first.priority.value ∧ 9223372036854775808 ≤ first.priority.value ∧
    (0 < second.priority.value ∧ second.priority.value < 9223372036854775808 ∨
      (second.priority.value = 0 ∨ 9223372036854775808 ≤ second.priority.value) ∧
        second.origin < first.origin)

variable {rules : List Rule} {entries : List (Rule × Nat)} {first second : Standing}

theorem weight_cases (standing : Standing) :
    standing.priority.value < 9223372036854775808 ∧ standing.weight = standing.priority.value ∨
      9223372036854775808 ≤ standing.priority.value ∧ standing.weight = 0 := by
  have hlower := standing.priority.lower
  unfold weight
  split
  · next hfits =>
    have := fitsSigned_iff.mp hfits
    exact .inl ⟨by omega, rfl⟩
  · next hfits =>
    rw [fitsSigned_iff] at hfits
    exact .inr ⟨by omega, rfl⟩

theorem Of.entry (h : first.Of rules (entries.map Prod.snd))
    (hrules : ∀ entry ∈ entries, rules[entry.2]? = some entry.1) :
    ∃ rule, entries[first.place]? = some (rule, first.origin) ∧ rule.priority = first.weight := by
  obtain ⟨hplace, hstated⟩ := h
  rw [List.getElem?_map] at hplace
  obtain ⟨⟨rule, origin⟩, hentry, horigin⟩ := Option.map_eq_some_iff.mp hplace
  obtain rfl : origin = first.origin := horigin
  rw [hrules _ (List.mem_of_getElem? hentry)] at hstated
  exact ⟨rule, hentry, Rule.priority_of_stated hstated⟩

/-- The rule that stands first weighs more, or it weighs as much and was given first. -/
theorem Of.weight_le (hprecedes : entries.Pairwise Rule.Precedes)
    (hrules : ∀ entry ∈ entries, rules[entry.2]? = some entry.1)
    (hfirst : first.Of rules (entries.map Prod.snd))
    (hsecond : second.Of rules (entries.map Prod.snd)) (hplace : first.place < second.place) :
    second.weight < first.weight ∨
      second.weight = first.weight ∧ first.origin < second.origin := by
  obtain ⟨rule, hentry, hweight⟩ := hfirst.entry hrules
  obtain ⟨rule', hentry', hweight'⟩ := hsecond.entry hrules
  obtain ⟨hlt, heq⟩ := List.getElem?_eq_some_iff.mp hentry
  obtain ⟨hlt', heq'⟩ := List.getElem?_eq_some_iff.mp hentry'
  have hpair := List.pairwise_iff_getElem.mp hprecedes _ _ hlt hlt' hplace
  rw [heq, heq'] at hpair
  rw [← hweight, ← hweight']
  exact hpair

theorem Of.eq_of_place (hfirst : first.Of rules (entries.map Prod.snd))
    (hsecond : second.Of rules (entries.map Prod.snd)) (hplace : first.place = second.place) :
    first = second := by
  obtain ⟨place, origin, priority⟩ := first
  obtain ⟨place', origin', priority'⟩ := second
  obtain rfl : place = place' := hplace
  obtain rfl : origin = origin' := Option.some.inj (hfirst.1.symm.trans hsecond.1)
  obtain rfl : priority = priority' := Option.some.inj (hfirst.2.symm.trans hsecond.2)
  rfl

end Standing

namespace Compiler

variable {σ : Type} {compiler : Compiler σ} {now : Instant} {rules : List Rule}
  {ruleset : Ruleset σ}

/-- Rules stand in the order of the integers that they state, unless the greater of two is
overlooked. Then it comes last. -/
theorem priorities_followed (h : compiler.compileAll now rules = .ok ruleset) :
    ∃ origins, compiler.DrawsFrom rules ruleset origins ∧
      ∀ first second : Standing, first.Of rules origins → second.Of rules origins →
        (first.InOrder second ↔ ¬ first.Overlooked second) ∧
          (first.Overlooked second → second.place < first.place) := by
  obtain ⟨entries, hprecedes, hrules, hdraws⟩ := exists_drawsFrom h
  refine ⟨_, hdraws, fun first second hfirst hsecond => ?_⟩
  have hbefore := hfirst.weight_le hprecedes hrules hsecond
  have hbehind := hsecond.weight_le hprecedes hrules hfirst
  have hsame : first.place = second.place →
      first.priority.value = second.priority.value ∧ first.origin = second.origin := by
    intro hplace
    rw [hfirst.eq_of_place hsecond hplace]
    exact ⟨rfl, rfl⟩
  have hweight := first.weight_cases
  have hweight' := second.weight_cases
  unfold Standing.InOrder Standing.Overlooked
  omega

/-- A compiler of rules that name nothing. -/
def idleCompiler : Compiler Unit where
  operators := []
  functions := []
  actions := []
  schemas := []
  strict := true
  checksDates := false
  anonymous := toString

/-- A rule that always matches and does nothing. -/
def idleRule (name : String) (priority : Whole) : Rule :=
  (Rule.ofName name (.value none (.bool true))).withPriority priority

def idleCompiled (name : String) (stated : Whole) (priority : Int) : CompiledRule Unit where
  id := name
  formula := .constant .yes
  actions := []
  attributes := [("priority", .number (.whole stated)), ("ruleName", .string name)]
  priority := priority
  facts := []

def fiveThenTen : List Rule :=
  [idleRule "first" ⟨5, by decide, by decide⟩, idleRule "second" ⟨5, by decide, by decide⟩,
    idleRule "third" ⟨10, by decide, by decide⟩]

def tenThenFive : Ruleset Unit where
  rules := [idleCompiled "third" ⟨10, by decide, by decide⟩ 10,
    idleCompiled "first" ⟨5, by decide, by decide⟩ 5,
    idleCompiled "second" ⟨5, by decide, by decide⟩ 5]
  factNames := []

theorem tenThenFive_followed :
    idleCompiler.compileAll ⟨0, 0⟩ fiveThenTen = .ok tenThenFive ∧
    ∃ origins, idleCompiler.DrawsFrom fiveThenTen tenThenFive origins ∧
      ∀ first second : Standing, first.Of fiveThenTen origins → second.Of fiveThenTen origins →
        (first.InOrder second ↔ ¬ first.Overlooked second) ∧
          (first.Overlooked second → second.place < first.place) := by
  have hranked : ranked fiveThenTen = [idleRule "third" ⟨10, by decide, by decide⟩,
      idleRule "first" ⟨5, by decide, by decide⟩,
      idleRule "second" ⟨5, by decide, by decide⟩] := by
    refine (ranked_ranks _).unique ⟨by decide, fun priority => ?_⟩
    by_cases hten : priority = 10
    · subst hten
      rfl
    · have hthird : (idleRule "third" ⟨10, by decide, by decide⟩).priority ≠ priority :=
        Ne.symm hten
      have hgiven : (fiveThenTen.filter fun rule => !rule.isIgnored) = fiveThenTen := rfl
      rw [hgiven, fiveThenTen]
      simp [List.filter_cons, hthird]
  have hcompile : idleCompiler.compileAll ⟨0, 0⟩ fiveThenTen = .ok tenThenFive := by
    rw [compileAll, hranked]
    rfl
  exact ⟨hcompile, priorities_followed hcompile⟩

/-- The least integer that needs the 64th bit. -/
def pastSigned : Whole := ⟨9223372036854775808, by decide, by decide⟩

def twoThenMost : List Rule := [idleRule "low" ⟨2, by decide, by decide⟩, idleRule "high" pastSigned]

def mostLast : Ruleset Unit where
  rules := [idleCompiled "low" ⟨2, by decide, by decide⟩ 2, idleCompiled "high" pastSigned 0]
  factNames := []

/-- The rules of a ruleset stand in the order of the integers that they state. -/
def FollowsPriorities (compiler : Compiler σ) (rules : List Rule) (ruleset : Ruleset σ) : Prop :=
  ∃ origins, compiler.DrawsFrom rules ruleset origins ∧
    ∀ first second : Standing, first.Of rules origins → second.Of rules origins →
      first.InOrder second

/-- The ids tell where the two rules were given. -/
theorem mostLast_origins {origins : List Nat}
    (h : idleCompiler.DrawsFrom twoThenMost mostLast origins) : origins = [0, 1] := by
  have hlength := congrArg List.length h.compiled
  rw [List.length_mapIdx, List.length_map] at hlength
  obtain ⟨a, b, rfl⟩ := List.length_eq_two.mp hlength
  have hids := congrArg
    (List.map fun compiled => compiled.bind fun made => made.toOption.map CompiledRule.id)
    h.compiled
  have hlow := (List.cons.inj hids).1
  have hhigh := (List.cons.inj (List.cons.inj hids).2).1
  rcases a with _ | _ | a
  · rcases b with _ | _ | b
    · exact absurd hhigh (by decide)
    · rfl
    · cases hhigh
  · exact absurd hlow (by decide)
  · cases hlow

/-- The rule of the greater priority comes last. -/
theorem most_overlooked :
    idleCompiler.compileAll ⟨0, 0⟩ twoThenMost = .ok mostLast ∧
      ¬ idleCompiler.FollowsPriorities twoThenMost mostLast := by
  have hranked : ranked twoThenMost = twoThenMost :=
    (ranked_ranks _).unique ⟨by decide, fun _ => rfl⟩
  refine ⟨?_, ?_⟩
  · rw [compileAll, hranked]
    rfl
  · rintro ⟨origins, hdraws, horder⟩
    rw [mostLast_origins hdraws] at horder
    have hless : (1 : Nat) < 0 := (horder ⟨1, 1, pastSigned⟩ ⟨0, 0, ⟨2, by decide, by decide⟩⟩
      ⟨rfl, rfl⟩ ⟨rfl, rfl⟩).1 (by decide)
    exact absurd hless (by decide)

end Compiler
end Rulebook
