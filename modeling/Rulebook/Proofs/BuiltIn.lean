import Rulebook.Proofs.Parts

/-!
# Formulas of the built-in operators

The static checks of the built-in operators, said once for each form of a formula. An operator
puts nothing into a formula but its operands, after it has checked their shapes.
-/
namespace Rulebook

variable {σ : Type}

/-- The shapes of the operands are those that the form of the formula takes. -/
def Formula.Checked : Formula σ → Prop
  | .constant _ => True
  | .value operand | .not operand => operand.shape.isBooleanLike = true
  | .and operands | .or operands => ∀ operand ∈ operands, operand.shape.isBooleanLike = true
  | .check test operand => test = .isNull ∨ operand.shape.isBooleanLike = true
  | .relation order left right =>
    order = .equal ∨ left.shape.isOrderedWith right.shape = true
  | .matchesPattern subject _ => subject.shape.isTextLike = true
  | .matchesTerm _ subject pattern =>
    subject.shape.isTextLike = true ∧ pattern.shape.isTextLike = true
  | .contains _ collection _ => collection.shape.isCollectionLike = true

namespace Operator

variable {language : PatternLanguage} {operands : List (Term σ)} {formula : Formula σ}

/-- The formula stands on operands that were given, and their shapes were checked. -/
def Makes (operands : List (Term σ)) (formula : Formula σ) : Prop :=
  formula.Checked ∧ ∀ operand ∈ formula.operands, operand ∈ operands

theorem boolean_of_require {operator : Operator} {position : Nat}
    (h : operator.requireBoolean position operands = .ok ()) :
    ∀ operand ∈ operands, operand.shape.isBooleanLike = true := by
  induction operands generalizing position with
  | nil => simp
  | cons operand rest ih =>
    unfold requireBoolean at h
    split at h
    · next hshape => exact List.forall_mem_cons.mpr ⟨hshape, ih h⟩
    · cases h

theorem makes_of_require {operator : Operator} {made : Formula σ}
    (h : (do operator.requireBoolean 1 operands; pure made) = Except.ok formula)
    (hchecked : (∀ operand ∈ operands, operand.shape.isBooleanLike = true) → made.Checked)
    (hoperands : made.operands = operands) : Makes operands formula := by
  obtain ⟨_, hrequire, hmade⟩ := exists_of_bind_ok h
  cases hmade
  exact ⟨hchecked (boolean_of_require hrequire), fun operand hoperand => hoperands ▸ hoperand⟩

theorem checked_of_ite {check : Bool} {made : Formula σ} {fault : OperandFault}
    (h : (if check then .ok made else .error fault : Except OperandFault (Formula σ)) =
      .ok formula) : check = true ∧ made = formula := by
  split at h
  · next hcheck =>
    cases h
    exact ⟨hcheck, rfl⟩
  · cases h

theorem makes_of_relation {operator : Operator} {relation : Relation} {left right : Term σ}
    (h : operator.makeRelation relation left right = .ok formula) :
    Makes [left, right] formula := by
  cases relation with
  | equal =>
    obtain ⟨-, rfl⟩ := checked_of_ite h
    exact ⟨.inl rfl, fun operand hoperand => hoperand⟩
  | less | lessOrEqual | greater | greaterOrEqual =>
    obtain ⟨hcomparable, rfl⟩ := checked_of_ite h
    exact ⟨.inr hcomparable, fun operand hoperand => hoperand⟩

theorem makes_of_match {subject pattern : Term σ}
    (h : makeMatch language subject pattern = .ok formula) : Makes [subject, pattern] formula := by
  unfold makeMatch at h
  split at h
  · cases h
  · next hsubject =>
    split at h
    · cases h
    · next hpattern =>
      rw [Bool.not_eq_true, Bool.not_eq_false'] at hsubject hpattern
      unfold makePattern at h
      split at h
      · cases h
        exact ⟨⟨hsubject, hpattern⟩, fun operand hoperand => hoperand⟩
      · split at h
        · cases h
          refine ⟨hsubject, fun operand hoperand => ?_⟩
          rw [Formula.operands, List.mem_singleton] at hoperand
          exact hoperand ▸ List.mem_cons_self
        · cases h

theorem makes_of_contains {operator : Operator} {containment : Containment}
    {collection elements : Term σ}
    (h : operator.makeContains containment collection elements = .ok formula) :
    Makes [collection, elements] formula := by
  obtain ⟨hcollection, rfl⟩ := checked_of_ite h
  exact ⟨hcollection, fun operand hoperand => hoperand⟩

theorem makes_of_make {operator : Operator} (h : operator.make language operands = .ok formula) :
    Makes operands formula := by
  unfold make at h
  dsimp only at h
  split at h
  · exact makes_of_require h id rfl
  · exact makes_of_require h id rfl
  · exact makes_of_require h (fun hshape => hshape _ List.mem_cons_self) rfl
  · exact makes_of_require h (fun hshape => .inr (hshape _ List.mem_cons_self)) rfl
  · exact makes_of_require h (fun hshape => .inr (hshape _ List.mem_cons_self)) rfl
  · cases h
    exact ⟨.inl rfl, fun operand hoperand => hoperand⟩
  all_goals first
    | exact makes_of_relation h
    | exact makes_of_match h
    | exact makes_of_contains h
    | cases h

/-- An operator adds no terms to those of its operands. -/
theorem Makes.forall_parts (h : Makes operands formula) {P : Term σ → Prop}
    (hoperands : ∀ operand ∈ operands, ∀ part ∈ operand.parts, P part)
    (hformula : P (.formula formula)) : ∀ part ∈ (Term.formula formula).parts, P part := by
  rw [Term.parts, List.forall_mem_cons, Formula.forall_parts]
  exact ⟨hformula, fun operand hoperand => hoperands operand (h.2 operand hoperand)⟩

end Operator

namespace Operators

/-- Every name that means anything means a built-in operator. -/
def BuiltIn (operators : Operators σ) : Prop :=
  ∀ name rule, Table.get? operators name = some rule →
    ∃ (language : PatternLanguage) (operator : Operator), rule.make = operator.make language

theorem withLanguage_builtIn (language : PatternLanguage) :
    (withLanguage language : Operators σ).BuiltIn := by
  intro name rule hrule
  have hentry := Table.mem_of_mem_ofEntries (Table.mem_of_get? hrule)
  obtain ⟨operator, -, hbuiltIn⟩ := List.mem_map.mp hentry
  cases hbuiltIn
  exact ⟨language, operator, rfl⟩

theorem standard_builtIn : (standard : Operators σ).BuiltIn := withLanguage_builtIn _

end Operators
end Rulebook
