import Mathlib.Data.List.Forall2
import Rulebook.Proofs.Evaluation

/-!
# Tuples and the facts of a run

Whatever the strategy, a tuple binds a name to data of its group only, and a group has the facts of
the type that its name stands for. Each generator keeps to its groups from one tuple to the next.
-/
namespace Rulebook

namespace FactGroup

variable {groups : List FactGroup}

/-- A group has a declared name, and the data of facts of the declared type. -/
theorem of_mem_ofFacts {facts : List Fact} {names : FactNames} {group : FactGroup}
    (h : group ∈ ofFacts facts names) :
    ∃ typeName, (group.name, typeName) ∈ names ∧
      ∀ data ∈ group.instances, ∃ fact ∈ facts, fact.typeName = typeName ∧ fact.data = data := by
  obtain ⟨⟨name, typeName⟩, hentry, rfl⟩ := List.mem_map.mp (List.mem_filter.mp h).1
  refine ⟨typeName, hentry, fun data hdata => ?_⟩
  obtain ⟨fact, hfact, rfl⟩ := List.mem_map.mp hdata
  obtain ⟨hmem, htype⟩ := List.mem_filter.mp hfact
  exact ⟨fact, hmem, by simpa using htype, rfl⟩

/-- No group is without facts. -/
def Filled (groups : List FactGroup) : Prop := ∀ group ∈ groups, group.instances ≠ []

theorem Filled.require (h : Filled groups) : requireFilled groups = .ok () := by
  have hnone : groups.find? (fun group => group.instances.isEmpty) = none :=
    List.find?_eq_none.mpr fun group hgroup => by simpa using h group hgroup
  rw [requireFilled, hnone]

theorem filled_of_require (h : requireFilled groups = .ok ()) : Filled groups := by
  unfold requireFilled at h
  split at h
  · cases h
  · next hnone =>
    intro group hgroup
    simpa using List.find?_eq_none.mp hnone group hgroup

end FactGroup

/-- Every name that is bound is that of a group, and is bound to data of the group. -/
def Tuple.DrawnFrom (groups : List FactGroup) (tuple : Tuple) : Prop :=
  ∀ name data, Table.get? tuple name = some data →
    ∃ group ∈ groups, group.name = name ∧ data ∈ group.instances

namespace Tuple

variable {groups : List FactGroup} {tuple : Tuple}

theorem drawnFrom_nil (groups : List FactGroup) : DrawnFrom groups [] := by
  intro name data h
  cases h

theorem DrawnFrom.put (h : tuple.DrawnFrom groups) {group : FactGroup} (hgroup : group ∈ groups)
    {data : Json} (hdata : data ∈ group.instances) :
    DrawnFrom groups (Table.put tuple group.name data) := by
  intro name held hheld
  by_cases hname : group.name = name
  · subst hname
    rw [Table.get?_put_self] at hheld
    cases hheld
    exact ⟨group, hgroup, rfl, hdata⟩
  · rw [Table.get?_put_of_ne _ _ hname] at hheld
    exact h name held hheld

end Tuple

theorem SingleInstance.firsts_drawnFrom {groups : List FactGroup}
    (hfilled : FactGroup.Filled groups) : (firsts groups).DrawnFrom groups := by
  have hrest : ∀ (rest : List FactGroup) (tuple : Tuple), (∀ group ∈ rest, group ∈ groups) →
      tuple.DrawnFrom groups →
      (rest.foldl (fun tuple group => Table.put tuple group.name
        (group.instances.head?.getD .null)) tuple : Tuple).DrawnFrom groups := by
    intro rest
    induction rest with
    | nil => exact fun tuple _ htuple => htuple
    | cons group rest ih =>
      intro tuple hmem htuple
      obtain ⟨hgroup, hmem⟩ := List.forall_mem_cons.mp hmem
      refine ih _ hmem (htuple.put hgroup ?_)
      cases hinstances : group.instances with
      | nil => exact absurd hinstances (hfilled group hgroup)
      | cons first _ => exact List.mem_cons_self
  exact hrest groups [] (fun _ h => h) (Tuple.drawnFrom_nil groups)

namespace CrossProduct

variable {groups all : List FactGroup} {digits : List Nat}

/-- There is one digit for each group, and it counts one of its facts. -/
def Counts (groups : List FactGroup) (digits : List Nat) : Prop :=
  List.Forall₂ (fun group digit => digit < group.instances.length) groups digits

theorem counts_zero (hfilled : FactGroup.Filled groups) :
    Counts groups (groups.map fun _ => 0) := by
  rw [Counts, List.forall₂_map_right_iff, List.forall₂_same]
  exact fun group hgroup => List.length_pos_iff.mpr (hfilled group hgroup)

theorem Counts.advance (h : Counts groups digits) : Counts groups (advance groups digits).1 := by
  induction h with
  | nil => exact .nil
  | cons hdigit hrest ih =>
    unfold CrossProduct.advance
    split
    · next hnext => exact .cons hnext hrest
    · exact .cons (Nat.zero_lt_of_lt hdigit) ih

theorem Counts.bind_drawnFrom (h : Counts groups digits) {tuple : Tuple}
    (hgroups : ∀ group ∈ groups, group ∈ all) (htuple : tuple.DrawnFrom all) :
    (bind tuple groups digits).DrawnFrom all := by
  induction h generalizing tuple with
  | nil => exact htuple
  | cons hdigit _ ih =>
    obtain ⟨hgroup, hrest⟩ := List.forall_mem_cons.mp hgroups
    refine ih hrest (htuple.put hgroup ?_)
    rw [List.getElem?_eq_getElem hdigit]
    exact List.getElem_mem hdigit

end CrossProduct

namespace TupleGenerator

variable {groups : List FactGroup} {generator after : TupleGenerator} {tuple : Tuple}

/-- What the generator will bind is drawn from the groups. -/
def Within (groups : List FactGroup) : TupleGenerator → Prop
  | roundRobin state => state.group ∈ groups ∧ state.buffer.DrawnFrom groups
  | singleInstance state => ∀ tuple, state.tuple = some tuple → tuple.DrawnFrom groups
  | crossProduct state => state.groups = groups ∧ CrossProduct.Counts groups state.digits

theorem within_of_make {crossProduct : Bool} (h : make groups crossProduct = .ok generator) :
    generator.Within groups := by
  unfold make at h
  split at h
  · obtain ⟨state, hstate, rfl⟩ := exists_of_map_ok h
    obtain ⟨_, -, hstate⟩ := exists_of_bind_ok hstate
    cases hstate
    exact ⟨List.mem_cons_self, Tuple.drawnFrom_nil _⟩
  · obtain ⟨state, hstate, rfl⟩ := exists_of_map_ok h
    obtain ⟨_, hfilled, hstate⟩ := exists_of_bind_ok hstate
    cases hstate
    exact ⟨rfl, CrossProduct.counts_zero (FactGroup.filled_of_require hfilled)⟩
  · obtain ⟨state, hstate, rfl⟩ := exists_of_map_ok h
    obtain ⟨_, hfilled, hstate⟩ := exists_of_bind_ok hstate
    cases hstate
    intro tuple htuple
    cases htuple
    exact SingleInstance.firsts_drawnFrom (FactGroup.filled_of_require hfilled)

/-- One tuple is drawn from the groups, and so will be the next ones. -/
theorem Within.next (h : generator.Within groups) (hnext : generator.next? = some (tuple, after)) :
    tuple.DrawnFrom groups ∧ after.Within groups := by
  cases generator with
  | roundRobin state =>
    obtain ⟨_, hstep, hpair⟩ := Option.map_eq_some_iff.mp hnext
    cases hpair
    obtain ⟨data, hdata, hpair⟩ := Option.map_eq_some_iff.mp hstep
    cases hpair
    have hbuffer := h.2.put h.1 (List.mem_of_getElem? hdata)
    exact ⟨hbuffer, h.1, hbuffer⟩
  | singleInstance state =>
    obtain ⟨_, hstep, hpair⟩ := Option.map_eq_some_iff.mp hnext
    cases hpair
    obtain ⟨held, hheld, hpair⟩ := Option.map_eq_some_iff.mp hstep
    cases hpair
    refine ⟨h held hheld, fun other hother => ?_⟩
    cases hother
  | crossProduct state =>
    obtain ⟨_, hstep, hpair⟩ := Option.map_eq_some_iff.mp hnext
    cases hpair
    obtain ⟨rfl, hcounts⟩ := h
    unfold CrossProduct.next? at hstep
    split at hstep
    · cases hstep
    · cases hstep
      exact ⟨hcounts.bind_drawnFrom (fun _ hgroup => hgroup) (Tuple.drawnFrom_nil _), rfl,
        hcounts.advance⟩

theorem Within.tuples (h : generator.Within groups) :
    ∀ tuple ∈ generator.tuples, tuple.DrawnFrom groups := by
  have hwithin : ∀ (n : Nat) (generator : TupleGenerator), generator.Within groups →
      ∀ tuple ∈ tuplesWithin n generator, tuple.DrawnFrom groups := by
    intro n
    induction n with
    | zero =>
      intro _ _ tuple htuple
      cases htuple
    | succ n ih =>
      intro generator h tuple htuple
      unfold tuplesWithin at htuple
      split at htuple
      · cases htuple
      · next first after hnext =>
        obtain ⟨hfirst, hafter⟩ := h.next hnext
        rcases List.mem_cons.mp htuple with rfl | hrest
        · exact hfirst
        · exact ih after hafter tuple hrest
  exact hwithin generator.bound generator h

end TupleGenerator
end Rulebook
