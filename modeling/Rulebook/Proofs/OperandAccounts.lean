import Rulebook.Proofs.Evaluation

/-!
# Accounts of tests

Operators that stop early are compared by what they evaluate as well as by their truth value. An
account of a test has its truth value or its failure, the session it leaves, and the operands that
were evaluated. The evaluation itself keeps no such list, so accounts are defined beside it, with its
results and sessions.
-/
namespace Rulebook

variable {σ : Type}

/-- What came of a test: its result, the session it left, and the operands that it evaluated, in the
order in which it did. -/
structure Account (σ : Type) where
  result : Except Failure Truth
  session : Session σ
  operands : List (Term σ)

namespace Account

def settled (truth : Truth) (session : Session σ) : Account σ := ⟨.ok truth, session, []⟩

/-- An evaluation that is not looked into: it is one operand. -/
def ofOperand (operand : Term σ) (evaluation : Evaluation σ Truth) (session : Session σ) :
    Account σ :=
  ⟨(evaluation.run session).1, (evaluation.run session).2, [operand]⟩

/-- A failure ends the test. -/
def andThen (first : Account σ) (next : Truth → Session σ → Account σ) : Account σ :=
  match first.result with
  | .ok truth =>
    let second := next truth first.session
    ⟨second.result, second.session, first.operands ++ second.operands⟩
  | .error failure => ⟨.error failure, first.session, first.operands⟩

/-- Only what is false becomes true. -/
def negated (truth : Truth) (session : Session σ) : Account σ :=
  settled (.ofBool (truth = .no)) session

/-- A conjunction goes on after what is true, a disjunction after what is not; the rest is not
looked at otherwise. -/
def unlessSettled (conjunctive : Bool) (rest : Session σ → Account σ) (truth : Truth)
    (session : Session σ) : Account σ :=
  if decide (truth = .yes) = conjunctive then rest session
  else settled (.ofBool !conjunctive) session

theorem andThen_assoc (first : Account σ) (next last : Truth → Session σ → Account σ) :
    (first.andThen next).andThen last =
      first.andThen fun truth session => (next truth session).andThen last := by
  obtain ⟨result, session, operands⟩ := first
  cases result with
  | error failure => rfl
  | ok truth =>
    simp only [andThen]
    cases (next truth session).result with
    | error failure => rfl
    | ok truth' => simp only [List.append_assoc]

theorem andThen_congr {first : Account σ} {next other : Truth → Session σ → Account σ}
    (h : ∀ truth, first.result = .ok truth → next truth first.session = other truth first.session) :
    first.andThen next = first.andThen other := by
  unfold andThen
  split
  · next truth htruth => rw [h truth htruth]
  · rfl

/-- What the account says of the run. -/
def run (account : Account σ) : Except Failure Truth × Session σ :=
  (account.result, account.session)

/-- Accounts follow one another as evaluations do. -/
theorem run_andThen {first : Account σ} {evaluation : Evaluation σ Truth} {session : Session σ}
    {next : Truth → Session σ → Account σ} {continuation : Truth → Evaluation σ Truth}
    (hfirst : first.run = evaluation.run session)
    (hnext : ∀ truth after, (next truth after).run = (continuation truth).run after) :
    (first.andThen next).run = (evaluation >>= continuation).run session := by
  rw [Evaluation.run_bind, ← hfirst]
  obtain ⟨result, after, operands⟩ := first
  cases result with
  | error failure => rfl
  | ok truth => exact hnext truth after

end Account

/-- The truth value of a term as an operand. -/
def Term.truth (env : Environment) (t : Term σ) : Evaluation σ Truth := do
  liftExcept (Truth.ofJson (← t.evaluate env))

/-- A conjunction or a disjunction. -/
def Formula.connect (conjunctive : Bool) (operands : List (Term σ)) : Formula σ :=
  if conjunctive then .and operands else .or operands

mutual

/-- The account of an operand. Logical operators are looked through to their own operands. -/
def Term.account (env : Environment) : Term σ → Session σ → Account σ
  | .formula formula, session => formula.account env session
  | other, session => .ofOperand other (other.truth env) session

def Formula.account (env : Environment) : Formula σ → Session σ → Account σ
  | .and operands, session => Formula.accountOf env true operands session
  | .or operands, session => Formula.accountOf env false operands session
  | .not operand, session => (operand.account env session).andThen .negated
  | other, session => .ofOperand (.formula other) (other.test env) session

/-- The account of the operands that are connected, up to the first that settles it. -/
def Formula.accountOf (env : Environment) (conjunctive : Bool) :
    List (Term σ) → Session σ → Account σ
  | [], session => .settled (.ofBool conjunctive) session
  | operand :: rest, session =>
    (operand.account env session).andThen
      (.unlessSettled conjunctive (Formula.accountOf env conjunctive rest))

end

section Agreement

variable {env : Environment}

/-- A formula has the truth value that it is tested for. -/
theorem Term.truth_formula (formula : Formula σ) :
    (Term.formula formula).truth env = formula.test env := by
  simp only [truth, evaluate, bind_assoc, pure_bind, Truth.ofJson_toJson]
  exact bind_pure _

namespace Formula

theorem test_not (operand : Term σ) :
    (Formula.not operand).test env = (do
      let truth ← operand.truth env
      pure (.ofBool (truth = .no))) := by
  simp only [test, Term.truth, bind_assoc]

theorem test_connect_nil (conjunctive : Bool) :
    (connect conjunctive ([] : List (Term σ))).test env = pure (.ofBool conjunctive) := by
  cases conjunctive <;> rfl

theorem test_connect_cons (conjunctive : Bool) (operand : Term σ) (rest : List (Term σ)) :
    (connect conjunctive (operand :: rest)).test env = (do
      let truth ← operand.truth env
      if decide (truth = .yes) = conjunctive then (connect conjunctive rest).test env
      else pure (.ofBool !conjunctive)) := by
  cases conjunctive with
  | true =>
    simp only [connect, if_true, test, testAll, Term.truth, bind_assoc, decide_eq_true_eq]
    rfl
  | false =>
    simp only [connect, Bool.false_eq_true, if_false, test, testAny, Term.truth, bind_assoc,
      decide_eq_false_iff_not, ite_not]
    rfl

end Formula
end Agreement

mutual

/-- The account of an operand is that of its evaluation. -/
theorem Term.run_account (env : Environment) : ∀ (t : Term σ) (session : Session σ),
    (t.account env session).run = (t.truth env).run session
  | .formula formula, session => by
    rw [Term.account, Term.truth_formula]
    exact Formula.run_account env formula session
  | .constant _ _, _ | .list _, _ | .reference _, _ | .call _ _ _, _ => rfl

theorem Formula.run_account (env : Environment) : ∀ (formula : Formula σ) (session : Session σ),
    (formula.account env session).run = (formula.test env).run session
  | .and operands, session => by
    rw [Formula.account]
    exact Formula.run_accountOf env true operands session
  | .or operands, session => by
    rw [Formula.account]
    exact Formula.run_accountOf env false operands session
  | .not operand, session => by
    rw [Formula.account, Formula.test_not]
    exact Account.run_andThen (Term.run_account env operand session) fun _ _ => rfl
  | .constant _, _ | .value _, _ | .check _ _, _ | .relation _ _ _, _ | .matchesPattern _ _, _
  | .matchesTerm _ _ _, _ | .contains _ _ _, _ => rfl

theorem Formula.run_accountOf (env : Environment) (conjunctive : Bool) :
    ∀ (operands : List (Term σ)) (session : Session σ),
      (Formula.accountOf env conjunctive operands session).run =
        ((Formula.connect conjunctive operands).test env).run session
  | [], session => by
    rw [Formula.accountOf, Formula.test_connect_nil]
    rfl
  | operand :: rest, session => by
    rw [Formula.accountOf, Formula.test_connect_cons]
    refine Account.run_andThen (Term.run_account env operand session) fun truth after => ?_
    unfold Account.unlessSettled
    split
    · exact Formula.run_accountOf env conjunctive rest after
    · rfl

end

namespace Formula

variable {env : Environment} {session : Session σ}

/-- One test is like the other to its end: in the truth value or the failure, in the session that is
left, and in the operands that are evaluated. -/
structure BehavesAs (first other : Formula σ) : Prop where
  test : ∀ env, first.test env = other.test env
  operands : ∀ env session,
    (first.account env session).operands = (other.account env session).operands

theorem BehavesAs.of_account {first other : Formula σ}
    (h : ∀ env session, first.account env session = other.account env session) :
    first.BehavesAs other where
  test env := by
    refine Evaluation.ext_run fun session => ?_
    rw [← run_account, ← run_account, h env session]
  operands env session := by rw [h env session]

theorem account_connect (conjunctive : Bool) (operands : List (Term σ)) :
    (connect conjunctive operands).account env session =
      accountOf env conjunctive operands session := by
  cases conjunctive <;> rfl

end Formula
end Rulebook
