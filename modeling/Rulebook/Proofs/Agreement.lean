import Rulebook.Proofs.Parts

/-!
# Evaluations that agree

The value of a term depends on its environment through its references, and on its session through
its calls. Where these agree part by part, so do all evaluations of a rule, and so do runs of rules
whose evaluations agree from related sessions.
-/
namespace Rulebook

variable {σ : Type} {S : Session σ → Session σ → Prop} {env env' : Environment}

/-- By itself the part does not tell two environments apart, nor related sessions. -/
def Term.Alike (S : Session σ → Session σ → Prop) (env env' : Environment) : Term σ → Prop
  | .reference r => r.resolve env = r.resolve env'
  | .call name function _ => ∀ arguments,
    Evaluation.Agree S (fun session => session.call name function arguments : Evaluation σ Json)
      (fun session => session.call name function arguments : Evaluation σ Json)
  | _ => True

namespace Evaluation

theorem items_agree {items : List (Term σ)}
    (h : ∀ item ∈ items, Agree S (item.evaluate env) (item.evaluate env')) :
    Agree S (Term.evaluateItems env items) (Term.evaluateItems env' items) := by
  induction items with
  | nil => exact Agree.pure []
  | cons item rest ih =>
    rw [List.forall_mem_cons] at h
    exact h.1.bind fun v => (ih h.2).bind fun vs => Agree.pure (v :: vs)

theorem params_agree {params : List (String × Term σ)} (arguments : Arguments)
    (h : ∀ param ∈ params, Agree S (param.2.evaluate env) (param.2.evaluate env')) :
    Agree S (Term.evaluateParams env arguments params)
      (Term.evaluateParams env' arguments params) := by
  induction params generalizing arguments with
  | nil => exact Agree.pure arguments
  | cons param rest ih =>
    rw [List.forall_mem_cons] at h
    exact h.1.bind fun v => ih (Table.put arguments param.1 v) h.2

theorem testAll_agree {operands : List (Term σ)}
    (h : ∀ operand ∈ operands, Agree S (operand.evaluate env) (operand.evaluate env')) :
    Agree S (Formula.testAll env operands) (Formula.testAll env' operands) := by
  induction operands with
  | nil => exact Agree.pure _
  | cons operand rest ih =>
    rw [List.forall_mem_cons] at h
    refine h.1.bind fun v => (Agree.lift _).bind fun truth => ?_
    split
    · exact ih h.2
    · exact Agree.pure _

theorem testAny_agree {operands : List (Term σ)}
    (h : ∀ operand ∈ operands, Agree S (operand.evaluate env) (operand.evaluate env')) :
    Agree S (Formula.testAny env operands) (Formula.testAny env' operands) := by
  induction operands with
  | nil => exact Agree.pure _
  | cons operand rest ih =>
    rw [List.forall_mem_cons] at h
    refine h.1.bind fun v => (Agree.lift _).bind fun truth => ?_
    split
    · exact Agree.pure _
    · exact ih h.2

theorem test_agree : ∀ {formula : Formula σ},
    (∀ operand ∈ formula.operands, Agree S (operand.evaluate env) (operand.evaluate env')) →
    Agree S (formula.test env) (formula.test env')
  | .constant truth, _ => Agree.pure truth
  | .value operand, h => (h operand List.mem_cons_self).bind fun v => Agree.lift _
  | .and _, h => testAll_agree h
  | .or _, h => testAny_agree h
  | .not operand, h =>
    (h operand List.mem_cons_self).bind fun v => (Agree.lift _).bind fun truth => Agree.pure _
  | .check test operand, h => (h operand List.mem_cons_self).bind fun v => Agree.lift _
  | .relation relation left right, h => by
    refine (h left List.mem_cons_self).bind fun v => ?_
    split
    · exact Agree.pure _
    · refine (h right (List.mem_cons_of_mem _ List.mem_cons_self)).bind fun w => ?_
      split
      · exact Agree.pure _
      · exact (Agree.lift _).bind fun b => Agree.pure _
  | .matchesPattern subject pattern, h => by
    refine (h subject List.mem_cons_self).bind fun v => ?_
    split
    · exact Agree.pure _
    · exact Agree.pure _
    · exact Agree.throw _
  | .matchesTerm language subject pattern, h => by
    refine (h subject List.mem_cons_self).bind fun v => ?_
    split
    · exact Agree.pure _
    · refine (h pattern (List.mem_cons_of_mem _ List.mem_cons_self)).bind fun w => ?_
      split
      · exact Agree.pure _
      · split
        · exact Agree.pure _
        · exact Agree.throw _
      · exact Agree.throw _
    · exact Agree.throw _
  | .contains containment collection elements, h => by
    refine (h collection List.mem_cons_self).bind fun v => ?_
    split
    · exact Agree.pure _
    · refine (h elements (List.mem_cons_of_mem _ List.mem_cons_self)).bind fun w => ?_
      split
      · exact Agree.pure _
      · exact Agree.pure _
    · exact Agree.throw _

theorem term_agree (t : Term σ) (h : ∀ part ∈ t.parts, part.Alike S env env') :
    Agree S (t.evaluate env) (t.evaluate env') := by
  induction t using Term.induct with
  | constant v shape => exact Agree.pure v
  | list items ih =>
    rw [Term.parts, List.forall_mem_cons, Term.forall_partsOfItems] at h
    exact (items_agree fun item hitem => ih item hitem (h.2 item hitem)).bind fun vs => Agree.pure _
  | reference r =>
    have hr : r.resolve env = r.resolve env' := h _ (Term.self_mem_parts _)
    change Agree S (liftExcept (r.resolve env)) (liftExcept (r.resolve env'))
    rw [hr]
    exact Agree.lift _
  | call name function params ih =>
    rw [Term.parts, List.forall_mem_cons, Term.forall_partsOfParams] at h
    exact (params_agree [] fun param hparam => ih param hparam (h.2 param hparam)).bind h.1
  | formula made ih =>
    rw [Term.parts, List.forall_mem_cons, Formula.forall_parts] at h
    have htest := test_agree fun operand hoperand => ih operand hoperand (h.2 operand hoperand)
    exact htest.bind fun truth => Agree.pure _

end Evaluation

namespace CompiledRule

variable {rule : CompiledRule σ}

theorem holds_agree (h : ∀ part ∈ rule.parts, part.Alike S env env') :
    Evaluation.Agree S (rule.holds env) (rule.holds env') := by
  have hformula := (forall_parts.mp h).1
  rw [Term.parts, List.forall_mem_cons, Formula.forall_parts] at hformula
  have htest := Evaluation.test_agree fun operand hoperand =>
    Evaluation.term_agree operand (hformula.2 operand hoperand)
  exact htest.bind fun truth => Evaluation.Agree.pure _

theorem bindActions_agree {actions : List (CompiledAction σ)}
    (h : ∀ action ∈ actions, ∀ part ∈ Term.partsOfParams action.params, part.Alike S env env') :
    Evaluation.Agree S (bindActions env actions) (bindActions env' actions) := by
  induction actions with
  | nil => exact Evaluation.Agree.pure []
  | cons action rest ih =>
    rw [List.forall_mem_cons, Term.forall_partsOfParams] at h
    have hparams := Evaluation.params_agree [] fun param hparam =>
      Evaluation.term_agree param.2 (h.1 param hparam)
    exact hparams.bind fun arguments => (ih h.2).bind fun others => Evaluation.Agree.pure _

theorem bind_agree (h : ∀ part ∈ rule.parts, part.Alike S env env') :
    Evaluation.Agree S (rule.bind env) (rule.bind env') :=
  bindActions_agree (forall_parts.mp h).2

/-- A rule is evaluated alike where all its parts are. -/
theorem evaluate_agree (h : ∀ part ∈ rule.parts, part.Alike S env env') :
    Evaluation.Agree S (rule.evaluate env) (rule.evaluate env') := by
  refine (holds_agree h).bind fun holds => ?_
  split
  · exact (bind_agree h).bind fun bound => Evaluation.Agree.pure _
  · exact Evaluation.Agree.pure none

end CompiledRule

namespace Run

variable {rules : List (CompiledRule σ)}

/-- From related sessions the rule is evaluated alike in every environment. -/
def Steady (S : Session σ → Session σ → Prop) (rule : CompiledRule σ) : Prop :=
  ∀ env, Evaluation.Agree S (rule.evaluate env) (rule.evaluate env)

theorem fireSequential_agree (hrules : ∀ rule ∈ rules, Steady S rule) (handler : FailureHandler)
    (index : Nat) (tuple : Tuple) (run : Run) :
    Evaluation.Agree S (fireSequential handler index tuple rules run)
      (fireSequential handler index tuple rules run) := by
  induction rules generalizing run with
  | nil => exact Evaluation.Agree.pure run
  | cons rule rest ih =>
    rw [List.forall_mem_cons] at hrules
    rw [fireSequential]
    split
    · refine (hrules.1 _).attempt.bind fun result => ?_
      split
      · exact ih hrules.2 run
      · exact (Evaluation.Agree.lift _).bind fun run => ih hrules.2 run
      · exact (Evaluation.Agree.lift _).bind fun run => ih hrules.2 run
    · exact ih hrules.2 run

theorem select_agree (hrules : ∀ rule ∈ rules, Steady S rule) (handler : FailureHandler)
    (tuple : Tuple) (run : Run) :
    Evaluation.Agree S (select handler tuple rules run) (select handler tuple rules run) := by
  induction rules generalizing run with
  | nil => exact Evaluation.Agree.pure _
  | cons rule rest ih =>
    rw [List.forall_mem_cons] at hrules
    rw [select]
    split
    · refine (hrules.1 _).attempt.bind fun result => ?_
      split
      · exact ih hrules.2 run
      · exact (ih hrules.2 run).bind fun selected => Evaluation.Agree.pure _
      · exact (Evaluation.Agree.lift _).bind fun run => ih hrules.2 run
    · exact ih hrules.2 run

theorem onTuple_agree (hrules : ∀ rule ∈ rules, Steady S rule) (sequential : Bool)
    (handler : FailureHandler) (index : Nat) (tuple : Tuple) (run : Run) :
    Evaluation.Agree S (onTuple sequential handler index tuple rules run)
      (onTuple sequential handler index tuple rules run) := by
  unfold onTuple
  split
  · exact fireSequential_agree hrules handler index tuple run
  · exact (select_agree hrules handler tuple run).bind fun selected => Evaluation.Agree.lift _

theorem onTuples_agree (hrules : ∀ rule ∈ rules, Steady S rule) (sequential : Bool)
    (handler : FailureHandler) (index : Nat) (tuples : List Tuple) (run : Run) :
    Evaluation.Agree S (onTuples sequential handler rules index tuples run)
      (onTuples sequential handler rules index tuples run) := by
  induction tuples generalizing index run with
  | nil => exact Evaluation.Agree.pure run
  | cons tuple rest ih =>
    rw [onTuples]
    split
    · exact Evaluation.Agree.pure run
    · exact (onTuple_agree hrules sequential handler index tuple run).bind fun run =>
        ih (index + 1) run

end Run

/-- A run depends on its session as the evaluations of its rules do. -/
theorem Ruleset.run_agree {ruleset : Ruleset σ} (hrules : ∀ rule ∈ ruleset.rules, Run.Steady S rule)
    (mode : RunMode) (facts : List Fact) (run : Run) :
    Evaluation.Agree S (ruleset.run mode facts run) (ruleset.run mode facts run) :=
  (Evaluation.Agree.lift _).bind fun generator =>
    Run.onTuples_agree hrules mode.sequential mode.handler 0 generator.tuples run

end Rulebook
