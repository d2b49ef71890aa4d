import Mathlib.Logic.ExistsUnique
import Rulebook.Operator
import Rulebook.Proofs.Evaluation

/-!
# What the relations say of two values

Two texts are equal when they are the same text. They are ordered as instants when both denote one,
and as texts otherwise. So one instant that is written in two ways is no less, no greater and not
equal to itself; `relations_trichotomous` says that this is the only exception.

Each pair of texts is ordered for itself, and so three texts may stand in a circle: two dates, and
between them a text that is no date. `texts_transitive` says that the order of texts is transitive
but for such circles.
-/
namespace Rulebook

namespace Instant

instance : Std.TransCmp Instant.compare :=
  inferInstanceAs (Std.TransCmp (compareLex (compareOn Instant.seconds) (compareOn Instant.nanos)))

instance : Std.LawfulEqCmp Instant.compare where
  eq_of_compare {a b} h := by
    have hparts : a.seconds = b.seconds ∧ a.nanos = b.nanos := by
      simpa only [compare, Ordering.then_eq_eq, Std.LawfulEqOrd.compare_eq_iff_eq] using h
    cases a
    cases b
    cases hparts.1
    cases hparts.2
    rfl

end Instant

namespace Json

variable {a b c : String} {l r : Json} {order : Ordering}

/-- Two different texts that denote one instant. -/
def Respelled (l r : Json) : Prop :=
  ∃ a b instant, l = .string a ∧ r = .string b ∧ a ≠ b ∧
    Instant.parse? a = some instant ∧ Instant.parse? b = some instant

theorem Respelled.ne (h : Respelled (.string a) (.string b)) : a ≠ b := by
  obtain ⟨_, _, _, ⟨⟩, ⟨⟩, hne, -, -⟩ := h
  exact hne

theorem compareTexts_of_instants {x y : Instant} (ha : Instant.parse? a = some x)
    (hb : Instant.parse? b = some y) : compareTexts a b = x.compare y := by
  rw [compareTexts, ha, hb]

theorem compareTexts_of_left (ha : Instant.parse? a = none) :
    compareTexts a b = Ord.compare a b := by
  rw [compareTexts, ha]

theorem compareTexts_of_right (hb : Instant.parse? b = none) :
    compareTexts a b = Ord.compare a b := by
  rw [compareTexts, hb]
  cases Instant.parse? a <;> rfl

theorem compareTexts_eq_iff :
    compareTexts a b = .eq ↔ a = b ∨ Respelled (.string a) (.string b) := by
  constructor
  · intro h
    by_cases hab : a = b
    · exact .inl hab
    cases ha : Instant.parse? a with
    | none =>
      rw [compareTexts_of_left ha] at h
      exact .inl (Std.LawfulEqOrd.eq_of_compare h)
    | some x =>
      cases hb : Instant.parse? b with
      | none =>
        rw [compareTexts_of_right hb] at h
        exact .inl (Std.LawfulEqOrd.eq_of_compare h)
      | some y =>
        rw [compareTexts_of_instants ha hb] at h
        obtain rfl : x = y := Std.LawfulEqCmp.eq_of_compare h
        exact .inr ⟨a, b, x, rfl, rfl, hab, ha, hb⟩
  · rintro (rfl | ⟨_, _, x, ⟨⟩, ⟨⟩, -, ha, hb⟩)
    · cases ha : Instant.parse? a with
      | none => exact (compareTexts_of_left ha).trans Std.ReflOrd.compare_self
      | some x => exact (compareTexts_of_instants ha ha).trans Std.ReflCmp.compare_self
    · exact (compareTexts_of_instants ha hb).trans Std.ReflCmp.compare_self

theorem Respelled.order_eq (hspelled : Respelled l r) (h : l.compare r = .ok order) :
    order = .eq := by
  obtain ⟨a, b, x, rfl, rfl, hne, ha, hb⟩ := hspelled
  cases h
  exact compareTexts_eq_iff.mpr (.inr ⟨a, b, x, rfl, rfl, hne, ha, hb⟩)

/-- Values that have an order are equal where the order says so, unless they are two spellings of
one instant. -/
theorem equal_iff (h : l.compare r = .ok order) :
    l.equal r = true ↔ order = .eq ∧ ¬ Respelled l r := by
  cases l with
  | null | array | object => cases r <;> cases h
  | bool p =>
    cases r with
    | bool q =>
      cases h
      simp [equal, same, Respelled]
    | _ => cases h
  | number m =>
    cases r with
    | number n =>
      cases h
      simp [equal, Respelled]
    | _ => cases h
  | string a =>
    cases r with
    | string b =>
      cases h
      have hsame : (Json.string a).equal (.string b) = true ↔ a = b := by simp [equal, same]
      rw [hsame, compareTexts_eq_iff]
      constructor
      · rintro rfl
        exact ⟨.inl rfl, fun h => h.ne rfl⟩
      · rintro ⟨hab | hab, hnot⟩
        · exact hab
        · exact absurd hab hnot
    | _ => cases h

/-- The first two texts denote instants, the first no later than the second, but between them stands
a text that denotes none, with the second before it and the first behind. -/
def Detour (first second between : String) : Prop :=
  match Instant.parse? first, Instant.parse? second, Instant.parse? between with
  | some x, some y, none =>
    (x.compare y).isLE = true ∧ (Ord.compare second between).isLE = true ∧
      (Ord.compare between first).isLE = true
  | _, _, _ => False

/-- An order in which no two different things are equal holds in one of the two directions. -/
theorem isLE_iff_not_isLE {α : Type} {cmp : α → α → Ordering} [Std.OrientedCmp cmp]
    [Std.LawfulEqCmp cmp] {x y : α} (h : x ≠ y) :
    (cmp x y).isLE = true ↔ ¬ (cmp y x).isLE = true := by
  have hne : cmp x y ≠ .eq := fun heq => h (Std.LawfulEqCmp.eq_of_compare heq)
  have hswap : cmp y x = (cmp x y).swap := Std.OrientedCmp.eq_swap
  rw [hswap]
  cases hxy : cmp x y with
  | lt | gt => decide
  | eq => exact absurd hxy hne

/-- With one date or none the order is that of texts, and with three it is that of instants. With
two, the third text may show that these orders disagree. -/
theorem compareTexts_trans_iff (hab : (compareTexts a b).isLE = true)
    (hbc : (compareTexts b c).isLE = true) :
    (compareTexts a c).isLE = true ↔
      ¬ (Detour a b c ∨ Detour b c a ∨
        Detour c a b ∧ Instant.parse? c ≠ Instant.parse? a) := by
  cases ha : Instant.parse? a with
  | none =>
    rw [compareTexts_of_left ha] at hab ⊢
    cases hb : Instant.parse? b with
    | none =>
      rw [compareTexts_of_left hb] at hbc
      simpa [Detour, ha, hb] using Std.TransCmp.isLE_trans hab hbc
    | some y =>
      cases hc : Instant.parse? c with
      | none =>
        rw [compareTexts_of_right hc] at hbc
        simpa [Detour, ha, hc] using Std.TransCmp.isLE_trans hab hbc
      | some z =>
        rw [compareTexts_of_instants hb hc] at hbc
        have hne : a ≠ c := ne_of_apply_ne Instant.parse? (by simp [ha, hc])
        rw [isLE_iff_not_isLE hne]
        simp [Detour, ha, hb, hc, hab, hbc]
  | some x =>
    cases hc : Instant.parse? c with
    | none =>
      rw [compareTexts_of_right hc] at hbc ⊢
      cases hb : Instant.parse? b with
      | none =>
        rw [compareTexts_of_right hb] at hab
        simpa [Detour, hb, hc] using Std.TransCmp.isLE_trans hab hbc
      | some y =>
        rw [compareTexts_of_instants ha hb] at hab
        have hne : a ≠ c := ne_of_apply_ne Instant.parse? (by simp [ha, hc])
        rw [isLE_iff_not_isLE hne]
        simp [Detour, ha, hb, hc, hab, hbc]
    | some z =>
      rw [compareTexts_of_instants ha hc]
      cases hb : Instant.parse? b with
      | none =>
        rw [compareTexts_of_right hb] at hab
        rw [compareTexts_of_left hb] at hbc
        by_cases hxz : z = x
        · subst hxz
          have hself : z.compare z = .eq := Std.ReflCmp.compare_self
          simp [Detour, ha, hb, hc, hself]
        · rw [isLE_iff_not_isLE (Ne.symm hxz)]
          simp [Detour, ha, hb, hc, hab, hbc, hxz]
      | some y =>
        rw [compareTexts_of_instants ha hb] at hab
        rw [compareTexts_of_instants hb hc] at hbc
        simpa [Detour, ha, hb, hc] using Std.TransCmp.isLE_trans hab hbc

end Json

namespace Relation

variable {σ : Type} {env : Environment} {session : Session σ} {relation : Relation} {l r : Json}
  {order : Ordering} {a b c : String}

/-- The operator of the relation is true of the two values, which it is given as constants. -/
def IsTrue (env : Environment) (session : Session σ) (relation : Relation) (l r : Json) : Prop :=
  ((Formula.test env (.relation relation (.ofJson l) (.ofJson r))).run session).1 = .ok .yes

/-- Values that have an order are not null, and so the operator looks at both. -/
theorem isTrue_iff_holds (h : l.compare r = .ok order) :
    relation.IsTrue env session l r ↔ relation.holds l r = .ok true := by
  have hl : l.isNull = false := by cases l <;> first | rfl | cases h
  have hr : r.isNull = false := by cases r <;> first | rfl | cases l <;> cases h
  have htest : (Formula.test env (.relation relation (.ofJson l) (.ofJson r))).run session =
      ((relation.holds l r).map Truth.ofBool, session) := by
    simp only [Formula.test, Term.ofJson, Term.evaluate, pure_bind, hl, hr, Bool.false_eq_true,
      if_false, Evaluation.run_lift_bind]
    cases relation.holds l r <;> rfl
  rw [IsTrue, htest]
  cases relation.holds l r with
  | error => simp [Except.map]
  | ok b => cases b <;> simp [Except.map, Truth.ofBool]

/-- A relation of order is true where it allows the order of the two values. -/
theorem isTrue_iff_allows (h : l.compare r = .ok order) (hrelation : relation ≠ .equal) :
    relation.IsTrue env session l r ↔ relation.allows order = true := by
  have hholds : relation.holds l r = .ok (relation.allows order) := by
    cases relation with
    | equal => exact absurd rfl hrelation
    | less | lessOrEqual | greater | greaterOrEqual => simp [holds, h, Except.map]
  rw [isTrue_iff_holds h, hholds, Except.ok.injEq]

/-- The one of less, equal and greater that goes with an order. -/
def ofOrder : Ordering → Relation
  | .lt => less
  | .eq => equal
  | .gt => greater

theorem ofOrder_mem (order : Ordering) : ofOrder order ∈ [less, equal, greater] := by
  cases order <;> simp [ofOrder]

/-- Of less, equal and greater only the one that goes with the order is true; of two spellings of an
instant not even that one. -/
theorem isTrue_iff_ofOrder (h : l.compare r = .ok order)
    (hrelation : relation ∈ [less, equal, greater]) :
    relation.IsTrue env session l r ↔ relation = ofOrder order ∧ ¬ l.Respelled r := by
  have hstrict : order ≠ .eq → ¬ l.Respelled r := fun hne hspelled => hne (hspelled.order_eq h)
  simp only [List.mem_cons, List.not_mem_nil, or_false] at hrelation
  rcases hrelation with rfl | rfl | rfl
  · rw [isTrue_iff_allows h (by decide)]
    cases order <;> simp_all [allows, ofOrder]
  · rw [isTrue_iff_holds h, holds, Except.ok.injEq, Json.equal_iff h]
    cases order <;> simp [ofOrder]
  · rw [isTrue_iff_allows h (by decide)]
    cases order <;> simp_all [allows, ofOrder]

theorem exactly_one (h : l.compare r = .ok order) (hnot : ¬ l.Respelled r) :
    ∃! relation, relation ∈ [less, equal, greater] ∧ relation.IsTrue env session l r := by
  have hmem := ofOrder_mem order
  refine ⟨ofOrder order, ⟨hmem, (isTrue_iff_ofOrder h hmem).mpr ⟨rfl, hnot⟩⟩, ?_⟩
  rintro other ⟨hother, htrue⟩
  exact ((isTrue_iff_ofOrder h hother).mp htrue).1

theorem none_of_respelled (h : l.compare r = .ok order) (hspelled : l.Respelled r) :
    ∀ relation ∈ [less, equal, greater], ¬ relation.IsTrue env session l r :=
  fun _ hmem htrue => ((isTrue_iff_ofOrder h hmem).mp htrue).2 hspelled

/-- A relation that leaves equality open holds where its two parts do, and between two spellings. -/
theorem isTrue_or_equal_iff {strict : Relation} (h : l.compare r = .ok order)
    (hstrict : strict ≠ equal) (hrelation : relation ≠ equal)
    (hallows : relation.allows order = true ↔ strict.allows order = true ∨ order = .eq) :
    relation.IsTrue env session l r ↔
      strict.IsTrue env session l r ∨ equal.IsTrue env session l r ∨ l.Respelled r := by
  rw [isTrue_iff_allows h hrelation, isTrue_iff_allows h hstrict, hallows,
    isTrue_iff_ofOrder h (by simp)]
  by_cases hsame : l.Respelled r
  · simp [hsame, hsame.order_eq h]
  · cases order <;> simp [hsame, ofOrder]

/-- Of two values that have an order exactly one of less, equal and greater is true, but none of the
three if they are two spellings of one instant. The two relations that leave equality open are true
where one of their parts is, and of two such spellings. -/
theorem relations_trichotomous (h : l.compare r = .ok order) :
    (¬ l.Respelled r →
      ∃! relation, relation ∈ [less, equal, greater] ∧ relation.IsTrue env session l r) ∧
    (l.Respelled r →
      ∀ relation ∈ [less, equal, greater], ¬ relation.IsTrue env session l r) ∧
    (lessOrEqual.IsTrue env session l r ↔
      less.IsTrue env session l r ∨ equal.IsTrue env session l r ∨ l.Respelled r) ∧
    (greaterOrEqual.IsTrue env session l r ↔
      greater.IsTrue env session l r ∨ equal.IsTrue env session l r ∨ l.Respelled r) := by
  refine ⟨exactly_one h, none_of_respelled h, ?_, ?_⟩
  · apply isTrue_or_equal_iff h (by decide) (by decide)
    cases order <;> decide
  · apply isTrue_or_equal_iff h (by decide) (by decide)
    cases order <;> decide

def emptyEnvironment : Environment := ⟨"", [], [], .null, false⟩

def emptySession : Session Unit := ⟨.empty .standard, ()⟩

/-- The text that comes first denotes the later instant; still just one relation is true. -/
theorem offsets_trichotomous :
    Json.compare (.string "2024-01-20T01:00:00Z") (.string "2024-01-20T08:00:00+08:00") = .ok .gt ∧
      ∃! relation, relation ∈ [less, equal, greater] ∧
        relation.IsTrue emptyEnvironment emptySession (.string "2024-01-20T01:00:00Z")
          (.string "2024-01-20T08:00:00+08:00") := by
  have hl : Instant.parse? "2024-01-20T01:00:00Z" = some ⟨1705712400, 0⟩ := by decide +kernel
  have hr : Instant.parse? "2024-01-20T08:00:00+08:00" = some ⟨1705708800, 0⟩ := by
    decide +kernel
  have horder : Json.compare (.string "2024-01-20T01:00:00Z")
      (.string "2024-01-20T08:00:00+08:00") = .ok .gt :=
    congrArg Except.ok (Json.compareTexts_of_instants hl hr)
  refine ⟨horder, (relations_trichotomous horder).1 ?_⟩
  rintro ⟨_, _, instant, ⟨⟩, ⟨⟩, -, hl', hr'⟩
  cases hl.symm.trans hl'
  cases hr.symm.trans hr'

/-- A day and its midnight are the same instant, and yet none of the three relations is true. -/
theorem midnight_without_relation :
    Json.compare (.string "2024-01-15") (.string "2024-01-15T00:00:00Z") = .ok .eq ∧
      ¬ ∃! relation, relation ∈ [less, equal, greater] ∧
        relation.IsTrue emptyEnvironment emptySession (.string "2024-01-15")
          (.string "2024-01-15T00:00:00Z") := by
  have hday : Instant.parse? "2024-01-15" = some ⟨1705276800, 0⟩ := by decide +kernel
  have hmidnight : Instant.parse? "2024-01-15T00:00:00Z" = some ⟨1705276800, 0⟩ := by
    decide +kernel
  have horder : Json.compare (.string "2024-01-15") (.string "2024-01-15T00:00:00Z") = .ok .eq :=
    congrArg Except.ok (Json.compareTexts_of_instants hday hmidnight)
  have hspelled : (Json.string "2024-01-15").Respelled (.string "2024-01-15T00:00:00Z") :=
    ⟨_, _, _, rfl, rfl, by decide, hday, hmidnight⟩
  refine ⟨horder, ?_⟩
  rintro ⟨relation, ⟨hmem, htrue⟩, -⟩
  exact none_of_respelled horder hspelled relation hmem htrue

theorem lessOrEqual_texts_iff :
    lessOrEqual.IsTrue env session (.string a) (.string b) ↔
      (Json.compareTexts a b).isLE = true := by
  have horder : (Json.string a).compare (.string b) = .ok (Json.compareTexts a b) := rfl
  rw [isTrue_iff_allows horder (by decide)]
  cases Json.compareTexts a b <;> decide

/-- The order of texts is transitive, unless a text that is no date stands between two dates on the
wrong side of each. If the dates come first and last they may be one instant: then they are in order
all the same. -/
theorem texts_transitive (hab : lessOrEqual.IsTrue env session (.string a) (.string b))
    (hbc : lessOrEqual.IsTrue env session (.string b) (.string c)) :
    lessOrEqual.IsTrue env session (.string a) (.string c) ↔
      ¬ (Json.Detour a b c ∨ Json.Detour b c a ∨
        Json.Detour c a b ∧ Instant.parse? c ≠ Instant.parse? a) :=
  lessOrEqual_texts_iff.trans
    (Json.compareTexts_trans_iff (lessOrEqual_texts_iff.mp hab) (lessOrEqual_texts_iff.mp hbc))

/-- Two days of January in the order of their dates, and a month that lies behind both. -/
theorem month_transitive :
    lessOrEqual.IsTrue emptyEnvironment emptySession (.string "2024-01-10") (.string "2024-1-15") ∧
    lessOrEqual.IsTrue emptyEnvironment emptySession (.string "2024-1-15") (.string "2024-11") ∧
    lessOrEqual.IsTrue emptyEnvironment emptySession (.string "2024-01-10") (.string "2024-11") := by
  have hday : Instant.parse? "2024-01-10" = some ⟨1704844800, 0⟩ := by decide +kernel
  have hlater : Instant.parse? "2024-1-15" = some ⟨1705276800, 0⟩ := by decide +kernel
  have hmonth : Instant.parse? "2024-11" = none := by decide +kernel
  have hahead : ¬ (Ord.compare "2024-11" "2024-01-10").isLE = true := by decide +kernel
  have hab : lessOrEqual.IsTrue emptyEnvironment emptySession (.string "2024-01-10")
      (.string "2024-1-15") := lessOrEqual_texts_iff.mpr (by decide +kernel)
  have hbc : lessOrEqual.IsTrue emptyEnvironment emptySession (.string "2024-1-15")
      (.string "2024-11") := lessOrEqual_texts_iff.mpr (by decide +kernel)
  refine ⟨hab, hbc, (texts_transitive hab hbc).mpr ?_⟩
  simp [Json.Detour, hday, hlater, hmonth, hahead]

/-- Days in one digit are in the order of their dates, and a month stands as a text between them. -/
theorem month_between_days :
    lessOrEqual.IsTrue emptyEnvironment emptySession (.string "2024-1-5") (.string "2024-01-10") ∧
    lessOrEqual.IsTrue emptyEnvironment emptySession (.string "2024-01-10") (.string "2024-05") ∧
    ¬ lessOrEqual.IsTrue emptyEnvironment emptySession (.string "2024-1-5") (.string "2024-05") := by
  simp only [lessOrEqual_texts_iff]
  decide +kernel

end Relation
end Rulebook
