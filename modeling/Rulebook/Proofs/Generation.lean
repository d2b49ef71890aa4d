import Rulebook.Proofs.Odometer

/-!
# The tuples of a run

All three strategies count through the combinations of the facts, one with each fact of the only
name, one no further than the first combination, one to the end. So their tuples are known by the
number of the combination, and what the strategies share is said of the combinations.
-/
namespace Rulebook

namespace TupleGenerator

/-- The generator gives the tuples one after the other, and no more. -/
inductive Yields : TupleGenerator → List Tuple → Prop
  | ends {generator : TupleGenerator} : generator.next? = none → Yields generator []
  | gives {generator after : TupleGenerator} {tuple : Tuple} {rest : List Tuple} :
    generator.next? = some (tuple, after) → Yields after rest → Yields generator (tuple :: rest)

variable {generator : TupleGenerator} {tuples : List Tuple}

theorem Yields.tuplesWithin (h : generator.Yields tuples) {n : Nat} (hn : tuples.length ≤ n) :
    tuplesWithin n generator = tuples := by
  induction h generalizing n with
  | ends hnext =>
    cases n with
    | zero => rfl
    | succ n => rw [TupleGenerator.tuplesWithin, hnext]
  | gives hnext _ ih =>
    cases n with
    | zero => cases hn
    | succ n =>
      rw [TupleGenerator.tuplesWithin, hnext]
      dsimp only
      rw [ih (Nat.le_of_succ_le_succ hn)]

end TupleGenerator

theorem FactGroup.Filled.total_pos {groups : List FactGroup} (h : FactGroup.Filled groups) :
    0 < CrossProduct.total groups := by
  induction groups with
  | nil => exact Nat.zero_lt_one
  | cons group rest ih =>
    obtain ⟨hgroup, hrest⟩ := List.forall_mem_cons.mp h
    exact Nat.mul_pos (List.length_pos_iff.mpr hgroup) (ih hrest)

namespace CrossProduct

variable {groups : List FactGroup} {digits : List Nat} {n : Nat}

/-- The tuple of a combination. -/
def combination (groups : List FactGroup) (n : Nat) : Tuple := bind [] groups (digitsOf groups n)

def combinations (groups : List FactGroup) : List Tuple :=
  (List.range (total groups)).map (combination groups)

/-- The generator when it has given some tuples. The digits turn over at the last combination, so the
number of the combination says whether it is exhausted. -/
def counted (groups : List FactGroup) (n : Nat) : CrossProduct :=
  ⟨groups, digitsOf groups n, decide (n = total groups)⟩

theorem next?_counted (h : n < total groups) :
    (counted groups n).next? = some (combination groups n, counted groups (n + 1)) := by
  simp only [counted, next?, decide_eq_false (Nat.ne_of_lt h), Bool.false_eq_true, if_false,
    advance_digitsOf h, combination]

theorem next?_counted_total (groups : List FactGroup) :
    (counted groups (total groups)).next? = none := by
  simp only [counted, next?, decide_true, if_true]

theorem make_eq_counted (h : FactGroup.Filled groups) :
    make groups = .ok (counted groups 0) := by
  rw [make, h.require, counted, digitsOf_zero, decide_eq_false (Nat.ne_of_lt h.total_pos)]
  rfl

theorem length_combinations (groups : List FactGroup) :
    (combinations groups).length = total groups := by
  rw [combinations, List.length_map, List.length_range]

theorem ordered_bind {tuple : Tuple} (h : Table.Ordered tuple) :
    Table.Ordered (bind tuple groups digits) := by
  induction groups generalizing tuple digits with
  | nil => exact h
  | cons group rest ih =>
    cases digits with
    | nil => exact h
    | cons digit digits => exact ih (h.put group.name _)

/-- A name stays bound when other groups are bound after it. -/
theorem get?_bind_of_bound {tuple : Tuple} {name : String}
    (h : ∃ data, Table.get? tuple name = some data) :
    ∃ data, Table.get? (bind tuple groups digits) name = some data := by
  induction groups generalizing tuple digits with
  | nil => exact h
  | cons group rest ih =>
    cases digits with
    | nil => exact h
    | cons digit digits =>
      refine ih ?_
      by_cases hname : group.name = name
      · subst hname
        exact ⟨_, Table.get?_put_self ..⟩
      · rw [Table.get?_put_of_ne _ _ hname]
        exact h

/-- The names of all groups are bound. -/
theorem Counts.get?_bind (h : Counts groups digits) (tuple : Tuple) :
    ∀ group ∈ groups, ∃ data, Table.get? (bind tuple groups digits) group.name = some data := by
  induction h generalizing tuple with
  | nil => exact List.forall_mem_nil _
  | cons _ _ ih =>
    refine List.forall_mem_cons.mpr ⟨?_, ih _⟩
    rw [bind]
    exact get?_bind_of_bound ⟨_, Table.get?_put_self ..⟩

/-- The digits stand for the data that are chosen for the names. -/
def Picks (choice : String → Json) (groups : List FactGroup) (digits : List Nat) : Prop :=
  List.Forall₂ (fun (group : FactGroup) (digit : Nat) =>
    group.instances[digit]? = some (choice group.name)) groups digits

variable {choice : String → Json}

theorem Picks.counts (h : Picks choice groups digits) : Counts groups digits :=
  List.Forall₂.imp (fun _ _ hdata => (List.getElem?_eq_some_iff.mp hdata).1) h

/-- Of two groups with one name the later one binds it, to the same data. -/
theorem Picks.get?_bind (h : Picks choice groups digits) {tuple : Tuple} {name : String}
    (hname : Table.get? tuple name = some (choice name) ∨ name ∈ groups.map FactGroup.name) :
    Table.get? (bind tuple groups digits) name = some (choice name) := by
  induction h generalizing tuple with
  | nil => exact hname.resolve_right List.not_mem_nil
  | @cons group _ _ _ hdata _ ih =>
    rw [bind, hdata]
    by_cases hgroup : group.name = name
    · subst hgroup
      exact ih (.inl (Table.get?_put_self ..))
    · rw [List.map_cons, List.mem_cons] at hname
      refine ih (hname.imp (fun hbound => ?_) fun hrest => hrest.resolve_left (Ne.symm hgroup))
      rw [Table.get?_put_of_ne _ _ hgroup]
      exact hbound

theorem exists_picks (h : ∀ group ∈ groups, choice group.name ∈ group.instances) :
    ∃ digits, Picks choice groups digits := by
  induction groups with
  | nil => exact ⟨[], .nil⟩
  | cons group rest ih =>
    obtain ⟨hgroup, hrest⟩ := List.forall_mem_cons.mp h
    obtain ⟨digit, hdigit⟩ := List.mem_iff_getElem?.mp hgroup
    obtain ⟨digits, hdigits⟩ := ih hrest
    exact ⟨digit :: digits, .cons hdigit hdigits⟩

/-- Whatever is chosen for each group, there is a combination of it. -/
theorem exists_combination (choice : String → Json)
    (h : ∀ group ∈ groups, choice group.name ∈ group.instances) :
    ∃ tuple ∈ combinations groups,
      ∀ group ∈ groups, Table.get? tuple group.name = some (choice group.name) := by
  obtain ⟨digits, hdigits⟩ := exists_picks h
  obtain ⟨n, hn, rfl⟩ := exists_digitsOf hdigits.counts
  exact ⟨combination groups n, List.mem_map.mpr ⟨n, List.mem_range.mpr hn, rfl⟩,
    fun group hgroup => hdigits.get?_bind (.inr (List.mem_map_of_mem hgroup))⟩

theorem bind_zero (tuple : Tuple) (groups : List FactGroup) :
    bind tuple groups (groups.map fun _ => 0) =
      groups.foldl (fun tuple group => Table.put tuple group.name
        (group.instances.head?.getD .null)) tuple := by
  induction groups generalizing tuple with
  | nil => rfl
  | cons group rest ih => rw [List.map_cons, bind, ih, List.foldl_cons, List.head?_eq_getElem?]

theorem combination_zero (groups : List FactGroup) :
    combination groups 0 = SingleInstance.firsts groups := by
  rw [combination, digitsOf_zero, bind_zero, SingleInstance.firsts]

theorem combinations_singleton (group : FactGroup) :
    combinations [group] = group.instances.map fun data => [(group.name, data)] := by
  have htotal : total [group] = group.instances.length := Nat.mul_one _
  unfold combinations
  rw [htotal]
  refine List.ext_getElem (by simp) fun n _ hn => ?_
  rw [List.length_map] at hn
  rw [List.getElem_map, List.getElem_range, List.getElem_map, combination, digitsOf,
    Nat.mod_eq_of_lt hn, bind, List.getElem?_eq_getElem hn]
  rfl

theorem take_combinations (h : FactGroup.Filled groups) :
    (combinations groups).take 1 = [SingleInstance.firsts groups] := by
  obtain ⟨n, hn⟩ := Nat.exists_eq_succ_of_ne_zero (Nat.ne_of_gt h.total_pos)
  rw [combinations, hn, Nat.succ_eq_add_one, List.range_succ_eq_map, ← combination_zero]
  rfl

end CrossProduct

namespace TupleGenerator

open CrossProduct

variable {groups : List FactGroup}

/-- The tuples that are generated, as combinations of the facts. -/
def sequence (groups : List FactGroup) (crossProduct : Bool) : List Tuple :=
  if crossProduct ∨ groups.length = 1 then combinations groups else (combinations groups).take 1

/-- The buffer holds nothing that the next tuple would not replace. -/
theorem roundRobin_yields (group : FactGroup) (position : Nat) {buffer : Tuple}
    (hbuffer : ∀ data, Table.put buffer group.name data = [(group.name, data)]) :
    Yields (.roundRobin ⟨group, position, buffer⟩)
      ((group.instances.drop position).map fun data => [(group.name, data)]) := by
  -- The induction is on the facts that are left, the buffer being that of the tuple before.
  generalize hrest : group.instances.drop position = rest
  induction rest generalizing position buffer with
  | nil =>
    have hnone : group.instances[position]? = none :=
      List.getElem?_eq_none (List.drop_eq_nil_iff.mp hrest)
    refine .ends ?_
    simp only [next?, RoundRobin.next?, hnone, Option.map_none]
  | cons data rest ih =>
    have hdata : group.instances[position]? = some data := by
      rw [← List.head?_drop, hrest, List.head?_cons]
    have hnext : next? (.roundRobin ⟨group, position, buffer⟩) = some ([(group.name, data)],
        .roundRobin ⟨group, position + 1, [(group.name, data)]⟩) := by
      simp only [next?, RoundRobin.next?, hdata, Option.map_some, hbuffer]
    refine .gives hnext (ih (position + 1) (fun later => ?_) ?_)
    · rw [Table.put, if_pos rfl]
    · rw [← List.tail_drop, hrest, List.tail_cons]

theorem singleInstance_yields (tuple : Tuple) (ignored : List (String × Nat)) :
    Yields (.singleInstance ⟨some tuple, ignored⟩) [tuple] :=
  .gives rfl (.ends rfl)

theorem crossProduct_yields {n left : Nat} (h : n + left = total groups) :
    Yields (.crossProduct (counted groups n)) ((List.range' n left).map (combination groups)) := by
  induction left generalizing n with
  | zero =>
    obtain rfl : n = total groups := h
    refine .ends ?_
    rw [next?, next?_counted_total, Option.map_none]
  | succ left ih =>
    have hnext : next? (.crossProduct (counted groups n)) =
        some (combination groups n, .crossProduct (counted groups (n + 1))) := by
      rw [next?, next?_counted (by omega), Option.map_some]
    rw [List.range'_succ, List.map_cons]
    exact .gives hnext (ih (by omega))

/-- Where each group has facts, there is a generator of the tuples. -/
theorem make_yields (h : FactGroup.Filled groups) (crossProduct : Bool) :
    ∃ generator, make groups crossProduct = .ok generator ∧
      generator.Yields (sequence groups crossProduct) ∧
      (sequence groups crossProduct).length ≤ generator.bound := by
  match groups, crossProduct with
  | [], true | [], false => exact ⟨_, rfl, singleInstance_yields [] [], Nat.le_refl 1⟩
  | [group], crossProduct =>
    have hmake : make [group] crossProduct = (RoundRobin.make group).map roundRobin := rfl
    rw [hmake, RoundRobin.make, h.require, sequence, if_pos (.inr rfl), combinations_singleton]
    exact ⟨_, rfl, roundRobin_yields group 0 fun _ => rfl, Nat.le_of_eq (List.length_map _)⟩
  | group :: second :: rest, true =>
    have hmake : make (group :: second :: rest) true =
        (CrossProduct.make (group :: second :: rest)).map .crossProduct := rfl
    have hyields := crossProduct_yields (Nat.zero_add (total (group :: second :: rest)))
    rw [← List.range_eq_range'] at hyields
    rw [hmake, make_eq_counted h, sequence, if_pos (.inl rfl)]
    exact ⟨_, rfl, hyields, Nat.le_of_eq (length_combinations _)⟩
  | group :: second :: rest, false =>
    have hmake : make (group :: second :: rest) false =
        (SingleInstance.make (group :: second :: rest)).map .singleInstance := rfl
    rw [hmake, SingleInstance.make, h.require, sequence, if_neg (by simp), take_combinations h]
    exact ⟨_, rfl, singleInstance_yields _ _, Nat.le_refl 1⟩

theorem subset_combinations (groups : List FactGroup) (crossProduct : Bool) :
    sequence groups crossProduct ⊆ combinations groups := by
  unfold sequence
  split
  · exact List.Subset.refl _
  · exact List.take_subset 1 _

theorem sequence_true (groups : List FactGroup) : sequence groups true = combinations groups :=
  if_pos (.inl rfl)

theorem sequence_prefix (groups : List FactGroup) (crossProduct : Bool) :
    sequence groups crossProduct <+: sequence groups true := by
  rw [sequence_true, sequence]
  split
  · exact List.prefix_refl _
  · exact List.take_prefix 1 _

theorem sequence_ne_nil (h : FactGroup.Filled groups) (crossProduct : Bool) :
    sequence groups crossProduct ≠ [] := by
  unfold sequence
  split
  · exact List.ne_nil_of_length_pos (length_combinations groups ▸ h.total_pos)
  · rw [take_combinations h]
    exact List.cons_ne_nil _ _

end TupleGenerator

/-- The data of the facts of a type, in the order of the facts. -/
def Fact.dataOf (facts : List Fact) (typeName : String) : List Json :=
  (facts.filter fun fact => fact.typeName = typeName).map Fact.data

/-- The declared names of whose types there are facts. -/
def FactNames.present (names : FactNames) (facts : List Fact) : FactNames :=
  names.filter fun entry => facts.any fun fact => fact.typeName = entry.2

variable {facts : List Fact} {names : FactNames}

/-- The tuple binds each name that has facts to one of them, and binds nothing else. -/
structure Tuple.Assigns (facts : List Fact) (names : FactNames) (tuple : Tuple) : Prop where
  once : Table.Ordered tuple
  bound : ∀ entry ∈ names.present facts, ∃ data, Table.get? tuple entry.1 = some data
  drawn : ∀ name data, Table.get? tuple name = some data →
    ∃ fact ∈ facts, (name, fact.typeName) ∈ names ∧ fact.data = data

namespace FactGroup

theorem ofFacts_eq (facts : List Fact) (names : FactNames) :
    ofFacts facts names =
      (names.present facts).map fun entry => ⟨entry.1, Fact.dataOf facts entry.2⟩ := by
  rw [ofFacts, List.filter_map, FactNames.present]
  congr 1
  refine List.filter_congr fun entry _ => ?_
  rw [Bool.eq_iff_iff]
  simp

theorem filled_ofFacts (facts : List Fact) (names : FactNames) : Filled (ofFacts facts names) := by
  intro group hgroup
  simpa using (List.mem_filter.mp hgroup).2

theorem assigns_of_mem_combinations {tuple : Tuple}
    (h : tuple ∈ CrossProduct.combinations (ofFacts facts names)) : tuple.Assigns facts names := by
  obtain ⟨n, hn, rfl⟩ := List.mem_map.mp h
  have hcounts := CrossProduct.counts_digitsOf (List.mem_range.mp hn)
  refine ⟨CrossProduct.ordered_bind Table.ordered_nil, fun entry hentry => ?_,
    fun name data hdata => ?_⟩
  · refine hcounts.get?_bind [] ⟨entry.1, Fact.dataOf facts entry.2⟩ ?_
    rw [ofFacts_eq]
    exact List.mem_map.mpr ⟨entry, hentry, rfl⟩
  · obtain ⟨group, hgroup, rfl, hmem⟩ :=
      hcounts.bind_drawnFrom (fun _ hgroup => hgroup) (Tuple.drawnFrom_nil _) name data hdata
    obtain ⟨typeName, hentry, hinstances⟩ := of_mem_ofFacts hgroup
    obtain ⟨fact, hfact, rfl, hfactdata⟩ := hinstances data hmem
    exact ⟨fact, hfact, hentry, hfactdata⟩

end FactGroup

/-- Grouping keeps all facts of a declared type, and the generator gives a tuple for each fact of
the only name, or the first facts together, or every combination. -/
theorem TupleGenerator.generation (facts : List Fact) (names : FactNames) (crossProduct : Bool) :
    FactGroup.ofFacts facts names =
      (names.present facts).map (fun entry => ⟨entry.1, Fact.dataOf facts entry.2⟩) ∧
    ∃ generator tuples,
      make (FactGroup.ofFacts facts names) crossProduct = .ok generator ∧
      generator.Yields tuples ∧ generator.tuples = tuples ∧ tuples ≠ [] ∧
      (∀ tuple ∈ tuples, tuple.Assigns facts names) ∧
      (crossProduct = true → ∀ choice : String → Fact,
        (∀ entry ∈ names.present facts,
          choice entry.1 ∈ facts ∧ (choice entry.1).typeName = entry.2) →
        ∃ tuple ∈ tuples, ∀ entry ∈ names.present facts,
          Table.get? tuple entry.1 = some (choice entry.1).data) ∧
      (∀ name typeName, names.present facts = [(name, typeName)] →
        tuples = (Fact.dataOf facts typeName).map fun data => [(name, data)]) ∧
      (names.present facts = [] → tuples = [[]]) ∧
      ∃ all full, make (FactGroup.ofFacts facts names) true = .ok all ∧ all.Yields full ∧
        tuples <+: full := by
  have hfilled := FactGroup.filled_ofFacts facts names
  have hgroups := FactGroup.ofFacts_eq facts names
  obtain ⟨generator, hmake, hyields, hbound⟩ := make_yields hfilled crossProduct
  obtain ⟨all, hall, hfull, -⟩ := make_yields hfilled true
  refine ⟨hgroups, generator, _, hmake, hyields, hyields.tuplesWithin hbound,
    sequence_ne_nil hfilled crossProduct, ?_, ?_, ?_, ?_, all, _, hall, hfull,
    sequence_prefix _ crossProduct⟩
  · intro tuple htuple
    exact FactGroup.assigns_of_mem_combinations (subset_combinations _ _ htuple)
  · rintro rfl choice hchoice
    have hpicks : ∀ group ∈ FactGroup.ofFacts facts names,
        (choice group.name).data ∈ group.instances := by
      intro group hgroup
      rw [hgroups] at hgroup
      obtain ⟨entry, hentry, rfl⟩ := List.mem_map.mp hgroup
      obtain ⟨hfact, htype⟩ := hchoice entry hentry
      exact List.mem_map_of_mem (List.mem_filter.mpr ⟨hfact, decide_eq_true htype⟩)
    obtain ⟨tuple, htuple, hget⟩ := 
      CrossProduct.exists_combination (fun name => (choice name).data) hpicks
    refine ⟨tuple, ?_, fun entry hentry => hget ⟨entry.1, Fact.dataOf facts entry.2⟩ ?_⟩
    · rwa [sequence_true]
    · rw [hgroups]
      exact List.mem_map.mpr ⟨entry, hentry, rfl⟩
  · intro name typeName hpresent
    rw [hgroups, hpresent, List.map_singleton, sequence, if_pos (.inr rfl),
      CrossProduct.combinations_singleton]
  · intro hpresent
    rw [hgroups, hpresent]
    cases crossProduct <;> rfl

end Rulebook
