import Rulebook.Proofs.StructuralEquality

/-!
# Equality and containment

Equality goes through two arrays side by side. Containment looks for each item of the one anywhere
in the other, with the items of the collection on the left of each comparison. Since equality is
reflexive and symmetric the order does not matter, and equal arrays contain each other
(`equality_and_containment`).

The operators are stated for any terms that have the arrays for values, wherever they take them
from.
-/
namespace Rulebook

namespace Json

variable {items needles xs ys : List Json} {needle : Json}

theorem containsAll_iff :
    containsAll items needles = true ↔
      ∀ needle ∈ needles, ∃ item ∈ items, item.equal needle = true := by
  simp only [containsAll, List.all_eq_true, List.any_eq_true]

theorem containsAny_iff :
    containsAny items needles = true ↔
      ∃ needle ∈ needles, ∃ item ∈ items, item.equal needle = true := by
  simp only [containsAny, List.any_eq_true]

/-- What holds every item holds one of them, if there is one. -/
theorem containsAny_iff_of_containsAll (h : containsAll items needles = true) :
    containsAny items needles = true ↔ items ≠ [] ∧ needles ≠ [] := by
  rw [containsAny_iff]
  constructor
  · rintro ⟨needle, hneedle, item, hitem, -⟩
    exact ⟨List.ne_nil_of_mem hitem, List.ne_nil_of_mem hneedle⟩
  · rintro ⟨-, hneedles⟩
    obtain ⟨needle, hneedle⟩ := List.exists_mem_of_ne_nil needles hneedles
    exact ⟨needle, hneedle, containsAll_iff.mp h needle hneedle⟩

theorem exists_equal_of_mem (h : List.Forall₂ (fun x y => x.equal y = true) xs ys)
    (hneedle : needle ∈ ys) : ∃ item ∈ xs, item.equal needle = true := by
  induction h with
  | nil => cases hneedle
  | cons hfirst _ ih =>
    rcases List.mem_cons.mp hneedle with rfl | hrest
    · exact ⟨_, List.mem_cons_self, hfirst⟩
    · obtain ⟨item, hitem, hequal⟩ := ih hrest
      exact ⟨item, List.mem_cons_of_mem _ hitem, hequal⟩

theorem containsAll_of_equal (h : (Json.array xs).equal (.array ys) = true) :
    containsAll xs ys = true :=
  containsAll_iff.mpr fun _ hneedle => exists_equal_of_mem (equalItems_iff.mp h) hneedle

end Json

variable {σ : Type} {env : Environment} {session : Session σ} {term l r : Term σ} {v : Json}
  {xs ys : List Json} {containment : Containment}

/-- From whatever session the term is evaluated, it has the value. -/
def Term.HasValue (env : Environment) (term : Term σ) (v : Json) : Prop :=
  ∀ session, ((term.evaluate env).run session).1 = .ok v

/-- From the session, the formula is true. -/
def Formula.IsTrue (env : Environment) (session : Session σ) (formula : Formula σ) : Prop :=
  ((formula.test env).run session).1 = .ok .yes

namespace Term

theorem HasValue.exists_run (h : term.HasValue env v) (session : Session σ) :
    ∃ after, (term.evaluate env).run session = (.ok v, after) :=
  ⟨((term.evaluate env).run session).2, Prod.ext (h session) rfl⟩

theorem hasValue_ofJson (v : Json) : (ofJson v : Term σ).HasValue env v := fun _ => rfl

theorem hasValue_reference {reference : Reference} (h : reference.resolve env = .ok v) :
    (Term.reference reference : Term σ).HasValue env v := by
  intro session
  rw [evaluate, h]
  rfl

end Term

namespace Formula

theorem isTrue_iff_of_result {formula : Formula σ} {b : Bool}
    (h : ((formula.test env).run session).1 = .ok (.ofBool b)) :
    formula.IsTrue env session ↔ b = true := by
  rw [IsTrue, h]
  cases b <;> simp [Truth.ofBool]

theorem isTrue_equal_iff (hl : l.HasValue env (.array xs)) (hr : r.HasValue env (.array ys)) :
    (relation .equal l r).IsTrue env session ↔ (Json.array xs).equal (.array ys) = true := by
  obtain ⟨middle, hleft⟩ := hl.exists_run session
  obtain ⟨after, hright⟩ := hr.exists_run middle
  refine isTrue_iff_of_result ?_
  rw [test, Evaluation.run_bind_ok hleft]
  exact congrArg Prod.fst (Evaluation.run_bind_ok hright)

theorem isTrue_contains_iff (hl : l.HasValue env (.array xs)) (hr : r.HasValue env (.array ys)) :
    (contains containment l r).IsTrue env session ↔ containment.holds xs ys = true := by
  obtain ⟨middle, hleft⟩ := hl.exists_run session
  obtain ⟨after, hright⟩ := hr.exists_run middle
  refine isTrue_iff_of_result ?_
  rw [test, Evaluation.run_bind_ok hleft]
  exact congrArg Prod.fst (Evaluation.run_bind_ok hright)

theorem contains_of_equal (session : Session σ) (hl : l.HasValue env (.array xs))
    (hr : r.HasValue env (.array ys)) (h : (Json.array xs).equal (.array ys) = true) :
    (contains .all l r).IsTrue env session ∧
      ((contains .any l r).IsTrue env session ↔ xs ≠ [] ∧ ys ≠ []) := by
  have hall := Json.containsAll_of_equal h
  rw [isTrue_contains_iff hl hr, isTrue_contains_iff hl hr]
  exact ⟨hall, Json.containsAny_iff_of_containsAll hall⟩

/-- Equality is reflexive and symmetric. Arrays that are equal contain each other, and have an item
in common just if they are not empty. Every array contains itself. -/
theorem equality_and_containment :
    (∀ v : Json, v.equal v = true) ∧ (∀ v w : Json, v.equal w = w.equal v) ∧
    ∀ (l r : Term σ) (xs ys : List Json),
      l.HasValue env (.array xs) → r.HasValue env (.array ys) →
        (contains .all l l).IsTrue env session ∧
        ((relation .equal l r).IsTrue env session →
          (contains .all l r).IsTrue env session ∧ (contains .all r l).IsTrue env session ∧
          ((contains .any l r).IsTrue env session ↔ xs ≠ [] ∧ ys ≠ []) ∧
          ((contains .any r l).IsTrue env session ↔ xs ≠ [] ∧ ys ≠ [])) := by
  refine ⟨Json.equal_refl, Json.equal_comm, fun l r xs ys hl hr => ⟨?_, fun htrue => ?_⟩⟩
  · exact (contains_of_equal session hl hl (Json.equal_refl _)).1
  · have hequal := (isTrue_equal_iff hl hr).mp htrue
    have hback : (Json.array ys).equal (.array xs) = true := by rw [Json.equal_comm, hequal]
    obtain ⟨hall, hany⟩ := contains_of_equal session hl hr hequal
    obtain ⟨hall', hany'⟩ := contains_of_equal session hr hl hback
    exact ⟨hall, hall', hany, hany'.trans and_comm⟩

/-- One fact, which lists the number one as an integer. -/
def oneBooked : Environment :=
  ⟨"", [], [("booked", .array [Json.wholeOne])], .null, false⟩

def booked : Term Unit := .reference ⟨.named "booked", [], .any, "booked"⟩

def wanted : Term Unit := .ofJson (.array [Json.doubleOne])

theorem wanted_booked_contained :
    (relation .equal booked wanted).IsTrue oneBooked Relation.emptySession ∧
      (contains .all booked wanted).IsTrue oneBooked Relation.emptySession ∧
      (contains .all wanted booked).IsTrue oneBooked Relation.emptySession ∧
      (contains .any booked wanted).IsTrue oneBooked Relation.emptySession := by
  have hbooked : booked.HasValue oneBooked (.array [Json.wholeOne]) := Term.hasValue_reference rfl
  have hwanted : wanted.HasValue oneBooked (.array [Json.doubleOne]) := Term.hasValue_ofJson _
  have hequal : (relation .equal booked wanted).IsTrue oneBooked Relation.emptySession :=
    (isTrue_equal_iff hbooked hwanted).mpr (by decide +kernel)
  obtain ⟨hall, hback, hany, -⟩ := (equality_and_containment.2.2 _ _ _ _ hbooked hwanted).2 hequal
  exact ⟨hequal, hall, hback, hany.mpr ⟨List.cons_ne_nil _ _, List.cons_ne_nil _ _⟩⟩

end Formula
end Rulebook
