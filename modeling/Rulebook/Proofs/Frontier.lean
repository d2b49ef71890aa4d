import Mathlib.Data.List.Basic
import Rulebook.Proofs.PathConformance

/-!
# Paths level by level

A path is followed from one value to the next by recursion, and results are spliced where a later
segment collects lists too. Here the same path is read one segment at a time: a segment takes each
value of a frontier to the values that follow it. `resolve_frontier` says that both readings agree,
on which values a path can be followed and on what is found.
-/
namespace Rulebook

namespace Segment

variable (segment : Segment) (value : Json)

/-- The field that the segment reads. -/
def read : Json := Path.readField value segment.field

/-- The values that follow: the field, or the items of the list in it. In place of a list that is
null stands one null. -/
def successors : List Json :=
  if segment.each then
    match segment.read value with
    | .null => [.null]
    | .array items => items
    | _ => []
  else [segment.read value]

/-- A segment that follows items needs a list to be there, or null. -/
def CanFollow : Prop :=
  segment.each = true →
    segment.read value = .null ∨ ∃ items, segment.read value = .array items

theorem successors_null : segment.successors .null = [.null] := by
  cases h : segment.each <;> simp [successors, h, read, Path.readField]

theorem canFollow_null : segment.CanFollow .null := fun _ => .inl rfl

end Segment

namespace Path

variable {path rest before : Path} {segment : Segment} {v w : Json}

/-- The values at the end of a path, from those at its start. -/
def frontier : Path → List Json → List Json
  | [], values => values
  | segment :: rest, values => frontier rest (values.flatMap segment.successors)

/-- No segment that follows items meets a field that is neither null nor a list. -/
def Passable : Path → List Json → Prop
  | [], _ => True
  | segment :: rest, values =>
    (∀ value ∈ values, segment.CanFollow value) ∧
      Passable rest (values.flatMap segment.successors)

/-- The values of a frontier may be followed one after the other. -/
theorem frontier_eq_flatMap (path : Path) (values : List Json) :
    frontier path values = values.flatMap fun value => frontier path [value] := by
  induction path generalizing values with
  | nil => simp [frontier]
  | cons segment rest ih =>
    calc
      frontier (segment :: rest) values
          = (values.flatMap segment.successors).flatMap fun value => frontier rest [value] :=
        ih _
      _ = values.flatMap fun value => frontier rest (segment.successors value) := by
        rw [List.flatMap_assoc]
        exact List.flatMap_congr fun value _ => (ih _).symm
      _ = values.flatMap fun value => frontier (segment :: rest) [value] := by
        simp only [frontier, List.flatMap_singleton]

theorem frontier_cons (path : Path) (value : Json) (others : List Json) :
    frontier path (value :: others) = frontier path [value] ++ frontier path others := by
  rw [frontier_eq_flatMap, List.flatMap_cons, ← frontier_eq_flatMap]

theorem passable_iff_forall (path : Path) (values : List Json) :
    Passable path values ↔ ∀ value ∈ values, Passable path [value] := by
  induction path generalizing values with
  | nil => simp [Passable]
  | cons segment rest ih =>
    simp only [Passable, List.flatMap_singleton, List.mem_singleton, forall_eq]
    constructor
    · rintro ⟨hhere, hbelow⟩ value hvalue
      refine ⟨hhere value hvalue, (ih _).mpr fun next hnext => ?_⟩
      exact (ih _).mp hbelow next (List.mem_flatMap.mpr ⟨value, hvalue, hnext⟩)
    · intro h
      refine ⟨fun value hvalue => (h value hvalue).1, (ih _).mpr fun next hnext => ?_⟩
      obtain ⟨value, hvalue, hnext⟩ := List.mem_flatMap.mp hnext
      exact (ih _).mp (h value hvalue).2 next hnext

/-! Null is followed to null, whatever the path. -/

theorem resolve_null (path : Path) : path.resolve .null = .ok .null := by
  cases path <;> rfl

theorem frontier_null (path : Path) : frontier path [.null] = [.null] := by
  induction path with
  | nil => rfl
  | cons segment rest ih => simpa [frontier, segment.successors_null] using ih

theorem passable_null (path : Path) : Passable path [.null] := by
  induction path with
  | nil => trivial
  | cons segment rest ih =>
    simpa [Passable, segment.successors_null, segment.canFollow_null] using ih

/-! One segment. That null is not looked into makes no difference: its fields are null. -/

theorem resolve_plain (h : segment.each = false) :
    resolve (segment :: rest) v = resolve rest (segment.read v) := by
  cases v with
  | null => exact (resolve_null rest).symm
  | _ => simp [resolve, h, Json.isNull, Segment.read]

theorem resolve_each (h : segment.each = true) (rest : Path) (v : Json) :
    segment.read v = .null ∧ resolve (segment :: rest) v = .ok .null ∨
    (∃ items, segment.read v = .array items ∧
      resolve (segment :: rest) v =
        (items.mapM (resolve rest)).map fun results => .array (collect (hasEach rest) results)) ∨
    ¬ segment.CanFollow v ∧ ∃ failure, resolve (segment :: rest) v = .error failure := by
  by_cases hv : v.isNull = true
  · cases v <;> first | exact .inl ⟨rfl, rfl⟩ | cases hv
  · rw [resolve, if_neg hv]
    simp only [h, Bool.not_true, Bool.false_eq_true, if_false]
    split
    · next hread => exact .inl ⟨hread, rfl⟩
    · next items hread =>
      exact .inr (.inl ⟨items, hread, by cases items.mapM (resolve rest) <;> rfl⟩)
    · next hnull hlist =>
      refine .inr (.inr ⟨fun hfollow => ?_, _, rfl⟩)
      rcases hfollow h with hread | ⟨items, hread⟩
      · exact hnull hread
      · exact hlist items hread

theorem collect_cons (nested : Bool) (first : Json) (results : List Json) :
    collect nested (first :: results) = collect nested [first] ++ collect nested results := by
  cases first <;> cases nested <;> simp [collect]

/-- What a path finds from each item makes up what it finds from all of them. -/
theorem collect_mapM {items results : List Json}
    (hstep : ∀ item w, resolve path item = .ok w →
      collect (hasEach path) [w] = frontier path [item])
    (h : items.mapM (resolve path) = .ok results) :
    collect (hasEach path) results = frontier path items := by
  induction items generalizing results with
  | nil =>
    cases h
    simp [collect, frontier_eq_flatMap path []]
  | cons item others ih =>
    rw [List.mapM_cons] at h
    obtain ⟨first, hfirst, h⟩ := exists_of_bind_ok h
    obtain ⟨remaining, hremaining, h⟩ := exists_of_bind_ok h
    cases h
    rw [collect_cons, frontier_cons, hstep item first hfirst, ih hremaining]

/-- What a path finds is the frontier, as a list if the path collects one and as its one value
otherwise. -/
theorem collect_resolve (h : resolve path v = .ok w) :
    collect (hasEach path) [w] = frontier path [v] := by
  induction path generalizing v w with
  | nil =>
    cases h
    cases v <;> rfl
  | cons segment rest ih =>
    rw [frontier, List.flatMap_singleton]
    cases heach : segment.each with
    | false =>
      have hrest : hasEach (segment :: rest) = hasEach rest := by simp [hasEach, heach]
      rw [resolve_plain heach] at h
      rw [hrest, ih h, Segment.successors, heach, if_neg Bool.false_ne_true]
    | true =>
      have hnested : hasEach (segment :: rest) = true := by simp [hasEach, heach]
      rw [hnested, Segment.successors, heach, if_pos rfl]
      rcases resolve_each heach rest v with ⟨hread, hnull⟩ | ⟨items, hread, hlist⟩ |
        ⟨-, failure, hfailure⟩
      · cases hnull.symm.trans h
        rw [hread, frontier_null]
        rfl
      · obtain ⟨results, hresults, rfl⟩ := exists_of_map_ok (hlist.symm.trans h)
        rw [hread]
        simpa [collect] using collect_mapM (fun _ _ => ih) hresults
      · cases hfailure.symm.trans h

theorem mapM_resolve_ok_iff {items : List Json} :
    (∃ results, items.mapM (resolve path) = .ok results) ↔
      ∀ item ∈ items, ∃ w, resolve path item = .ok w := by
  refine ⟨?_, mapM_resolve_succeeds⟩
  induction items with
  | nil => simp
  | cons item others ih =>
    rintro ⟨results, h⟩
    rw [List.mapM_cons] at h
    obtain ⟨first, hfirst, h⟩ := exists_of_bind_ok h
    obtain ⟨remaining, hremaining, -⟩ := exists_of_bind_ok h
    exact List.forall_mem_cons.mpr ⟨⟨first, hfirst⟩, ih ⟨remaining, hremaining⟩⟩

/-- A path finds something just where it can be followed. -/
theorem resolve_ok_iff : (∃ w, resolve path v = .ok w) ↔ Passable path [v] := by
  induction path generalizing v with
  | nil => exact ⟨fun _ => trivial, fun _ => ⟨v, rfl⟩⟩
  | cons segment rest ih =>
    rw [Passable, List.forall_mem_singleton, List.flatMap_singleton]
    cases heach : segment.each with
    | false =>
      have hfollow : segment.CanFollow v := fun h => absurd (heach.symm.trans h) Bool.false_ne_true
      rw [resolve_plain heach, ih, Segment.successors, heach, if_neg Bool.false_ne_true]
      exact (and_iff_right hfollow).symm
    | true =>
      rw [Segment.successors, heach, if_pos rfl]
      rcases resolve_each heach rest v with ⟨hread, hnull⟩ | ⟨items, hread, hlist⟩ |
        ⟨hblocked, failure, hfailure⟩
      · rw [hread, hnull]
        exact iff_of_true ⟨.null, rfl⟩ ⟨fun _ => .inl hread, passable_null rest⟩
      · have hfollow : segment.CanFollow v := fun _ => .inr ⟨items, hread⟩
        rw [hread, hlist, and_iff_right hfollow, passable_iff_forall]
        simp only [← ih, ← mapM_resolve_ok_iff]
        constructor
        · rintro ⟨w, hw⟩
          obtain ⟨results, hresults, -⟩ := exists_of_map_ok hw
          exact ⟨results, hresults⟩
        · rintro ⟨results, hresults⟩
          exact ⟨_, by rw [hresults]; rfl⟩
      · rw [hfailure]
        exact iff_of_false (fun ⟨_, h⟩ => by cases h) fun h => hblocked h.1

/-- Up to its first list a path has one value to go on from. -/
theorem resolve_append (h : hasEach before = false) (v : Json) :
    ∃ reached, frontier before [v] = [reached] ∧
      ∀ rest, resolve (before ++ rest) v = resolve rest reached := by
  induction before generalizing v with
  | nil => exact ⟨v, rfl, fun _ => rfl⟩
  | cons segment others ih =>
    obtain ⟨heach, hothers⟩ : segment.each = false ∧ hasEach others = false := by
      simpa [hasEach] using h
    obtain ⟨reached, hfrontier, hresolve⟩ := ih hothers (segment.read v)
    refine ⟨reached, ?_, fun rest => (resolve_plain heach).trans (hresolve rest)⟩
    rwa [frontier, List.flatMap_singleton, Segment.successors, heach, if_neg Bool.false_ne_true]

/-- A path finds something just where no segment that follows items meets a field that is neither
null nor a list. Without such a segment it finds the one value of the frontier. With one it finds
null if the field that the first of them reads is null, and the list of the frontier otherwise. -/
theorem resolve_frontier (path : Path) (v : Json) :
    ((∃ w, path.resolve v = .ok w) ↔ path.Passable [v]) ∧
    (path.hasEach = false → ∃ w, path.frontier [v] = [w] ∧ path.resolve v = .ok w) ∧
    ∀ (before : Path) segment after, path = before ++ segment :: after → before.hasEach = false →
      segment.each = true → ∃ reached, before.frontier [v] = [reached] ∧
        ∀ w, path.resolve v = .ok w →
          w = if (segment.read reached).isNull then .null else .array (path.frontier [v]) := by
  refine ⟨resolve_ok_iff, fun hplain => ?_, ?_⟩
  · obtain ⟨reached, hfrontier, hresolve⟩ := resolve_append hplain v
    exact ⟨reached, hfrontier, by simpa [resolve] using hresolve []⟩
  · rintro before segment after rfl hbefore heach
    obtain ⟨reached, hfrontier, hresolve⟩ := resolve_append hbefore v
    refine ⟨reached, hfrontier, fun w hw => ?_⟩
    have hcollect := collect_resolve hw
    have hnested : hasEach (before ++ segment :: after) = true := by simp [hasEach, heach]
    rw [hnested] at hcollect
    rw [hresolve] at hw
    rcases resolve_each heach after reached with ⟨hread, hnull⟩ | ⟨items, hread, hlist⟩ |
      ⟨-, failure, hfailure⟩
    · rw [hread]
      exact Except.ok.inj (hw.symm.trans hnull)
    · obtain ⟨results, -, rfl⟩ := exists_of_map_ok (hlist.symm.trans hw)
      rw [hread, ← hcollect]
      simp [collect, Json.isNull]
    · cases hfailure.symm.trans hw

example : frontier [⟨"rooms", true⟩, ⟨"tags", true⟩]
    [.object [("rooms", .array
      [.object [("tags", .array [.string "sea", .string "quiet"])], .null])]] =
    [.string "sea", .string "quiet", .null] := rfl

end Path
end Rulebook
