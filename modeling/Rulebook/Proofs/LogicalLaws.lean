import Rulebook.Proofs.BuiltIn
import Rulebook.Proofs.OperandAccounts

/-!
# Laws of the logical operators

A conjunction or a disjunction may be nested in another one without a difference, whatever its
operands are. Negation turns one into the other if no operand is null, and nothing that a built-in
operator makes ever is.
-/
namespace Rulebook

variable {σ : Type}

namespace Formula

variable {env : Environment} {session : Session σ} {conjunctive : Bool}

theorem accountOf_append (operands more : List (Term σ)) :
    accountOf env conjunctive (operands ++ more) session =
      (accountOf env conjunctive operands session).andThen
        (.unlessSettled conjunctive (accountOf env conjunctive more)) := by
  induction operands generalizing session with
  | nil => cases conjunctive <;> rfl
  | cons operand rest ih =>
    rw [List.cons_append, accountOf, accountOf, Account.andThen_assoc]
    refine Account.andThen_congr fun truth _ => ?_
    unfold Account.unlessSettled
    split
    · exact ih
    · cases conjunctive <;> rfl

theorem connect_nested (operands more : List (Term σ)) :
    (connect conjunctive (.formula (connect conjunctive operands) :: more)).BehavesAs
      (connect conjunctive (operands ++ more)) := by
  refine .of_account fun env session => ?_
  rw [account_connect, account_connect, accountOf_append, accountOf, Term.account, account_connect]

end Formula

theorem Truth.ofBool_ne_unknown (b : Bool) : Truth.ofBool b ≠ .unknown := by
  cases b <;> decide

namespace Evaluation

variable {α : Type}

/-- No run gives a truth value that is null. -/
def NeverNull (evaluation : Evaluation σ Truth) : Prop :=
  Ensures (fun _ => True) (fun _ => True) evaluation (· ≠ .unknown)

namespace NeverNull

theorem ofBool (b : Bool) : NeverNull (pure (.ofBool b) : Evaluation σ Truth) :=
  Ensures.pure (Truth.ofBool_ne_unknown b)

theorem throw (failure : Failure) : NeverNull (throw failure : Evaluation σ Truth) :=
  Ensures.throw trivial

/-- Only the last step matters. -/
theorem bind {first : Evaluation σ α} {next : α → Evaluation σ Truth}
    (h : ∀ a, NeverNull (next a)) : NeverNull (first >>= next) := by
  have hfirst : Ensures (fun _ => True) (fun _ => True) first fun _ => True :=
    ⟨fun _ _ => trivial, fun _ _ _ _ => trivial, fun _ _ _ _ => trivial⟩
  exact hfirst.bind fun a _ => h a

theorem run_ne_unknown {evaluation : Evaluation σ Truth} (h : NeverNull evaluation)
    (session : Session σ) : (evaluation.run session).1 ≠ .ok .unknown :=
  fun hnull => h.value session _ trivial hnull rfl

end NeverNull
end Evaluation

theorem Check.test_ne_unknown {check : Check} {v : Json} {truth : Truth}
    (h : check.test v = .ok truth) : truth ≠ .unknown := by
  cases check with
  | isNull =>
    cases h
    exact Truth.ofBool_ne_unknown _
  | isTrue | isFalse =>
    obtain ⟨_, -, rfl⟩ := exists_of_map_ok h
    exact Truth.ofBool_ne_unknown _

namespace Formula

variable {env : Environment} {session : Session σ}

/-- No test of the formula comes out null. -/
def Decides (formula : Formula σ) : Prop :=
  ∀ env, (formula.test env).NeverNull

/-- The form tests its operands: it neither is a truth value nor takes the one of a term. -/
def IsOperation : Formula σ → Prop
  | .constant _ | .value _ => False
  | _ => True

open Evaluation (NeverNull)

theorem connect_neverNull (conjunctive : Bool) (operands : List (Term σ)) :
    ((connect conjunctive operands).test env).NeverNull := by
  induction operands with
  | nil =>
    rw [test_connect_nil]
    exact .ofBool _
  | cons operand rest ih =>
    rw [test_connect_cons]
    refine .bind fun truth => ?_
    split
    · exact ih
    · exact .ofBool _

theorem decides_of_isOperation : ∀ {formula : Formula σ}, formula.IsOperation → formula.Decides
  | .and operands, _, _ => connect_neverNull true operands
  | .or operands, _, _ => connect_neverNull false operands
  | .not operand, _, env => by
    rw [test_not]
    exact .bind fun truth => .ofBool _
  | .check form operand, _, env => by
    rw [test]
    exact .bind fun v => .lift (fun truth => Check.test_ne_unknown) fun _ _ => trivial
  | .relation order left right, _, env => by
    rw [test]
    refine .bind fun v => ?_
    split
    · exact .ofBool false
    · refine .bind fun w => ?_
      split
      · exact .ofBool false
      · exact .bind fun b => .ofBool b
  | .matchesPattern subject pattern, _, env => by
    rw [test]
    refine .bind fun v => ?_
    split
    · exact .ofBool false
    · exact .ofBool _
    · exact .throw _
  | .matchesTerm language subject pattern, _, env => by
    rw [test]
    refine .bind fun v => ?_
    split
    · exact .ofBool false
    · refine .bind fun w => ?_
      split
      · exact .ofBool false
      · split
        · exact .ofBool _
        · exact .throw _
      · exact .throw _
    · exact .throw _
  | .contains containment collection elements, _, env => by
    rw [test]
    refine .bind fun v => ?_
    split
    · exact .ofBool false
    · refine .bind fun w => ?_
      split
      · exact .ofBool false
      · exact .ofBool _
    · exact .throw _

/-- The value of a formula is null just where its truth value is. -/
theorem Decides.evaluate_ne_null {formula : Formula σ} (h : formula.Decides)
    (session : Session σ) : (((Term.formula formula).evaluate env).run session).1 ≠ .ok .null := by
  rw [Term.evaluate, Evaluation.run_bind]
  rcases hrun : (formula.test env).run session with ⟨_ | truth, after⟩
  · intro hnull
    cases hnull
  · cases truth with
    | yes | no =>
      intro hnull
      cases hnull
    | unknown => exact absurd (congrArg Prod.fst hrun) ((h env).run_ne_unknown session)

section Negation

variable {conjunctive : Bool} {formulas : List (Formula σ)}

theorem Decides.account_ne_unknown {formula : Formula σ} (h : formula.Decides) :
    (formula.account env session).result ≠ .ok .unknown := by
  have hresult : (formula.account env session).result = ((formula.test env).run session).1 :=
    congrArg Prod.fst (run_account env formula session)
  rw [hresult]
  exact (h env).run_ne_unknown session

/-- Negation goes through the operands one after the other. An operand that is null would stop one
side and not the other. -/
theorem accountOf_negated (h : ∀ formula ∈ formulas, formula.Decides) :
    (accountOf env conjunctive (formulas.map .formula) session).andThen .negated =
      accountOf env (!conjunctive) (formulas.map fun formula => .formula (.not (.formula formula)))
        session := by
  induction formulas generalizing session with
  | nil => cases conjunctive <;> rfl
  | cons formula rest ih =>
    obtain ⟨hformula, hrest⟩ := List.forall_mem_cons.mp h
    rw [List.map_cons, List.map_cons, accountOf, accountOf, Term.account, Term.account, account,
      Term.account, Account.andThen_assoc, Account.andThen_assoc]
    refine Account.andThen_congr fun truth htruth => ?_
    have hcontinue := @ih ((formula.account env session).session) hrest
    cases truth with
    | unknown => exact absurd htruth hformula.account_ne_unknown
    | yes =>
      cases conjunctive with
      | true => exact hcontinue
      | false => rfl
    | no =>
      cases conjunctive with
      | true => rfl
      | false => exact hcontinue

theorem not_connect (h : ∀ formula ∈ formulas, formula.Decides) :
    (Formula.not (.formula (connect conjunctive (formulas.map .formula)))).BehavesAs
      (connect (!conjunctive)
        (formulas.map fun formula => .formula (.not (.formula formula)))) := by
  refine .of_account fun env session => ?_
  rw [account_connect, account, Term.account, account_connect]
  exact accountOf_negated h

end Negation
end Formula

namespace Operator

variable {language : PatternLanguage} {operands : List (Term σ)} {formula : Formula σ}

theorem isOperation_of_match {subject pattern : Term σ}
    (h : makeMatch language subject pattern = .ok formula) : formula.IsOperation := by
  unfold makeMatch makePattern at h
  repeat' split at h
  all_goals
    cases h
    try trivial

theorem isOperation_of_require {operator : Operator} {made : Formula σ}
    (h : (do operator.requireBoolean 1 operands; pure made) = Except.ok formula)
    (hmade : made.IsOperation) : formula.IsOperation := by
  obtain ⟨_, -, hformula⟩ := exists_of_bind_ok h
  cases hformula
  exact hmade

theorem isOperation_of_ite {check : Bool} {made : Formula σ} {fault : OperandFault}
    (h : (if check then .ok made else .error fault : Except OperandFault (Formula σ)) =
      .ok formula) (hmade : made.IsOperation) : formula.IsOperation :=
  (checked_of_ite h).2 ▸ hmade

/-- No operator makes a formula that only passes on a truth value. -/
theorem isOperation_of_make {operator : Operator}
    (h : operator.make language operands = .ok formula) :
    formula.IsOperation := by
  unfold make at h
  dsimp only at h
  split at h
  all_goals first
    | exact isOperation_of_require h trivial
    | exact isOperation_of_ite h trivial
    | exact isOperation_of_match h
    | cases h
      try trivial

/-- The operator of a conjunction or of a disjunction. -/
def connective (conjunctive : Bool) : Operator :=
  if conjunctive then .and else .or

theorem requireBoolean_iff {operator : Operator} {position : Nat} :
    operator.requireBoolean position operands = .ok () ↔
      ∀ operand ∈ operands, operand.shape.isBooleanLike = true := by
  refine ⟨boolean_of_require, fun h => ?_⟩
  induction operands generalizing position with
  | nil => rfl
  | cons operand rest ih =>
    obtain ⟨hoperand, hrest⟩ := List.forall_mem_cons.mp h
    rw [requireBoolean, if_pos hoperand]
    exact ih hrest

theorem make_connective_cons (conjunctive : Bool) (operand : Term σ) (rest : List (Term σ)) :
    (connective conjunctive).make language (operand :: rest) = (do
      (connective conjunctive).requireBoolean 1 (operand :: rest)
      pure (.connect conjunctive (operand :: rest))) := by
  cases conjunctive <;> rfl

theorem make_connective_iff {conjunctive : Bool} :
    (connective conjunctive).make language operands = .ok formula ↔
      operands ≠ [] ∧ (∀ operand ∈ operands, operand.shape.isBooleanLike = true) ∧
        formula = .connect conjunctive operands := by
  cases operands with
  | nil =>
    refine ⟨fun h => ?_, fun h => absurd rfl h.1⟩
    cases conjunctive <;> cases h
  | cons operand rest =>
    rw [make_connective_cons]
    constructor
    · intro h
      obtain ⟨_, hrequire, hmade⟩ := exists_of_bind_ok h
      cases hmade
      exact ⟨List.cons_ne_nil _ _, requireBoolean_iff.mp hrequire, rfl⟩
    · rintro ⟨-, hshapes, rfl⟩
      rw [requireBoolean_iff.mpr hshapes]
      rfl

theorem exists_fault (conjunctive : Bool)
    (h : ¬ ∀ operand ∈ operands, operand.shape.isBooleanLike = true) :
    ∃ fault, (connective conjunctive).make language operands = .error fault := by
  cases hmade : (connective conjunctive).make language operands with
  | error fault => exact ⟨fault, rfl⟩
  | ok formula => exact absurd (make_connective_iff.mp hmade).2.1 h

/-- Two ways of making a formula are both refused, or what they make behaves alike. -/
inductive MadeAlike : (first other : Except OperandFault (Formula σ)) → Prop
  | made {formula other : Formula σ} (h : formula.BehavesAs other) :
    MadeAlike (.ok formula) (.ok other)
  | refused (fault other : OperandFault) : MadeAlike (.error fault) (.error other)

theorem make_nested {conjunctive : Bool} {more : List (Term σ)}
    (h : (connective conjunctive).make language operands = .ok formula) :
    MadeAlike ((connective conjunctive).make language (.formula formula :: more))
      ((connective conjunctive).make language (operands ++ more)) := by
  obtain ⟨hoperands, hshapes, rfl⟩ := make_connective_iff.mp h
  by_cases hmore : ∀ operand ∈ more, operand.shape.isBooleanLike = true
  · rw [make_connective_iff.mpr ⟨List.cons_ne_nil _ _, List.forall_mem_cons.mpr ⟨rfl, hmore⟩, rfl⟩,
      make_connective_iff.mpr ⟨List.append_ne_nil_of_left_ne_nil hoperands _,
        List.forall_mem_append.mpr ⟨hshapes, hmore⟩, rfl⟩]
    exact .made (Formula.connect_nested operands more)
  · obtain ⟨fault, hnested⟩ :=
      exists_fault conjunctive (mt (fun h => (List.forall_mem_cons.mp h).2) hmore)
    obtain ⟨fault', hflat⟩ :=
      exists_fault conjunctive (mt (fun h => (List.forall_mem_append.mp h).2) hmore)
    rw [hnested, hflat]
    exact .refused fault fault'

/-- The formula is one that a built-in operator has made. -/
def HasMade (formula : Formula σ) : Prop :=
  ∃ (language : PatternLanguage) (operator : Operator) (operands : List (Term σ)),
    operator.make language operands = .ok formula

theorem HasMade.decides (h : HasMade formula) : formula.Decides := by
  obtain ⟨language, operator, operands, hmake⟩ := h
  exact Formula.decides_of_isOperation (isOperation_of_make hmake)

/-- The negation of a formula, as its operator makes it. -/
def negate (language : PatternLanguage) (formula : Formula σ) :
    Except OperandFault (Formula σ) :=
  Operator.not.make language [.formula formula]

theorem mapM_negate (formulas : List (Formula σ)) :
    formulas.mapM (negate language) = .ok (formulas.map fun formula => .not (.formula formula)) :=
  List.mapM_pure

theorem make_formulas {conjunctive : Bool} {formulas : List (Formula σ)} (h : formulas ≠ []) :
    (connective conjunctive).make language (formulas.map .formula) =
      .ok (.connect conjunctive (formulas.map .formula)) := by
  refine make_connective_iff.mpr ⟨mt List.map_eq_nil_iff.mp h, fun operand hoperand => ?_, rfl⟩
  obtain ⟨formula, -, rfl⟩ := List.mem_map.mp hoperand
  rfl

/-- A conjunction in a conjunction, or a disjunction in a disjunction, behaves as the one with the
operands of both. The negation of either behaves as the other one of the negations, where operators
have made the operands: none of what they make is null. -/
theorem logical_laws (language : PatternLanguage) :
    (∀ (conjunctive : Bool) (operands more : List (Term σ)) (inner : Formula σ),
      (connective conjunctive).make language operands = .ok inner →
        MadeAlike ((connective conjunctive).make language (.formula inner :: more))
          ((connective conjunctive).make language (operands ++ more))) ∧
    (∀ (conjunctive : Bool) (formulas : List (Formula σ)),
      formulas ≠ [] → (∀ formula ∈ formulas, HasMade formula) →
        ∃ negation distributed,
          (do negate language (← (connective conjunctive).make language (formulas.map .formula))) =
            .ok negation ∧
          (do
            let negations ← formulas.mapM (negate language)
            (connective !conjunctive).make language (negations.map .formula)) = .ok distributed ∧
          negation.BehavesAs distributed) ∧
    ∀ (formula : Formula σ), HasMade formula → ∀ (env : Environment) (session : Session σ),
      (((Term.formula formula).evaluate env).run session).1 ≠ .ok .null := by
  refine ⟨fun conjunctive operands more inner h => make_nested h,
    fun conjunctive formulas hformulas hmade => ?_,
    fun formula h env session => h.decides.evaluate_ne_null session⟩
  have hnegations : formulas.map (fun formula => Formula.not (.formula formula)) ≠ [] :=
    mt List.map_eq_nil_iff.mp hformulas
  rw [make_formulas hformulas, mapM_negate]
  refine ⟨_, _, rfl, make_formulas hnegations, ?_⟩
  rw [List.map_map]
  exact Formula.not_connect fun formula h => (hmade formula h).decides

theorem absent_combined :
    let absent : Term Unit := .constant .null .any
    let missing : Formula Unit := .check .isNull absent
    let language := Pattern.language
    MadeAlike (Operator.and.make language [.formula (.and [absent]), absent])
        (Operator.and.make language [absent, absent]) ∧
      (∃ negation distributed,
        (do negate language (← Operator.or.make language [.formula missing])) = .ok negation ∧
        (do
          let negations ← [missing].mapM (negate language)
          Operator.and.make language (negations.map .formula)) = .ok distributed ∧
        negation.BehavesAs distributed) ∧
      ∀ (env : Environment) (session : Session Unit),
        (((Term.formula missing).evaluate env).run session).1 ≠ .ok .null := by
  intro absent missing language
  have hmissing : HasMade missing := ⟨language, .isNull, [absent], rfl⟩
  obtain ⟨hnested, hnegated, hdecided⟩ := logical_laws (σ := Unit) language
  exact ⟨hnested true [absent] [absent] (.and [absent]) rfl,
    hnegated false [missing] (List.cons_ne_nil _ _) (List.forall_mem_singleton.mpr hmissing),
    hdecided missing hmissing⟩

/-- An operand that is null stays outside the laws of negation. -/
example (env : Environment) (session : Session σ) :
    let absent : Term σ := .constant .null .any
    ((Formula.not (.formula (.and [absent]))).test env).run session = (.ok .yes, session) ∧
      ((Formula.or [.formula (.not absent)]).test env).run session = (.ok .no, session) :=
  ⟨rfl, rfl⟩

end Operator
end Rulebook
