import Rulebook.Proofs.Modes

/-!
# Where a run evaluates rules

A run is written once more with the evaluation of rules as an argument. With the evaluation that
rules have it is the run itself. It stays the run when the evaluation is replaced by anything else,
as long as that is done only for rules that do not apply to the tuple, or for tuples that the facts
do not give.
-/
namespace Rulebook

variable {σ : Type}

/-- Something in place of the evaluation of a rule. -/
abbrev Evaluator (σ : Type) :=
  CompiledRule σ → Environment → Evaluation σ (Option (List BoundAction))

/-- A run of the ruleset on the facts may come to evaluate the rule on the tuple. -/
structure Ruleset.Evaluates (ruleset : Ruleset σ) (crossProduct : Bool) (facts : List Fact)
    (rule : CompiledRule σ) (tuple : Tuple) : Prop where
  rule_mem : rule ∈ ruleset.rules
  drawn : ∃ generator,
    TupleGenerator.make (FactGroup.ofFacts facts ruleset.factNames) crossProduct = .ok generator ∧
      tuple ∈ generator.tuples
  applies : rule.appliesTo tuple = true

namespace Run

variable (evaluator : Evaluator σ) (handler : FailureHandler) (index : Nat) (tuple : Tuple)

def evaluateBy (run : Run) (tuple : Tuple) (rule : CompiledRule σ) :
    Evaluation σ (Except Failure (Option (List BoundAction))) :=
  attempt (evaluator rule (rule.environment tuple run.outcome))

def fireSequentialBy : List (CompiledRule σ) → Run → Evaluation σ Run
  | [], run => pure run
  | rule :: rest, run =>
    if rule.appliesTo tuple then do
      match ← run.evaluateBy evaluator tuple rule with
      | .ok none => fireSequentialBy rest run
      | .ok (some bound) =>
        fireSequentialBy rest (← liftExcept (run.fire handler index rule.id bound))
      | .error failure =>
        fireSequentialBy rest (← liftExcept (run.handle handler rule.id failure))
    else fireSequentialBy rest run

def selectBy : List (CompiledRule σ) → Run → Evaluation σ (List (String × List BoundAction) × Run)
  | [], run => pure ([], run)
  | rule :: rest, run =>
    if rule.appliesTo tuple then do
      match ← run.evaluateBy evaluator tuple rule with
      | .ok none => selectBy rest run
      | .ok (some bound) => do
        let (others, run) ← selectBy rest run
        pure ((rule.id, bound) :: others, run)
      | .error failure => do
        let run ← liftExcept (run.handle handler rule.id failure)
        selectBy rest run
    else selectBy rest run

def fireBatchedBy (rules : List (CompiledRule σ)) (run : Run) : Evaluation σ Run := do
  let (matched, run) ← selectBy evaluator handler tuple rules run
  liftExcept (fireAll handler index matched run)

def onTupleBy (sequential : Bool) (rules : List (CompiledRule σ)) (run : Run) : Evaluation σ Run :=
  if sequential then fireSequentialBy evaluator handler index tuple rules run
  else fireBatchedBy evaluator handler index tuple rules run

def onTuplesBy (sequential : Bool) (rules : List (CompiledRule σ)) :
    Nat → List Tuple → Run → Evaluation σ Run
  | _, [], run => pure run
  | index, tuple :: rest, run =>
    if run.outcome.stopped then pure run
    else do
      let run ← onTupleBy evaluator handler index tuple sequential rules run
      onTuplesBy sequential rules (index + 1) rest run

end Run

def Ruleset.runBy (ruleset : Ruleset σ) (evaluator : Evaluator σ) (mode : RunMode)
    (facts : List Fact) (run : Run) : Evaluation σ Run := do
  let groups := FactGroup.ofFacts facts ruleset.factNames
  let generator ← liftExcept (TupleGenerator.make groups mode.crossProduct)
  Run.onTuplesBy evaluator mode.handler mode.sequential ruleset.rules 0 generator.tuples run

namespace Engine

def runBy (engine : Engine σ) (evaluator : Evaluator σ) (ruleset : Ruleset σ)
    (request : Request σ) : Except Failure (Report σ) × Engine σ :=
  let evaluation :=
    ruleset.runBy evaluator engine.mode request.facts (.start request.result request.stopped)
  let (result, session) := ExceptT.run evaluation engine.session
  (result.map fun run => ⟨run, ruleset⟩, { engine with session })

def executeBy (engine : Engine σ) (evaluator : Evaluator σ) (source : RuleSource) (now : Instant)
    (request : Request σ) : Except Failure (Report σ) × Engine σ :=
  match request.carried with
  | some ruleset => engine.runBy evaluator ruleset request
  | none =>
    match engine.get source now request.uri with
    | (.ok loaded, engine) => engine.runBy evaluator loaded.ruleset request
    | (.error failure, engine) => (.error failure, engine)

/-- Executing the request evaluates rules in such environments only: whatever took the place of
other evaluations, nothing would change. -/
def EvaluatesOnly (engine : Engine σ) (source : RuleSource) (now : Instant) (request : Request σ)
    (P : CompiledRule σ → Environment → Prop) : Prop :=
  ∀ evaluator : Evaluator σ, (∀ rule env, P rule env → evaluator rule env = rule.evaluate env) →
    engine.executeBy evaluator source now request = engine.execute source now request

end Engine

namespace Run

variable {evaluator : Evaluator σ} {handler : FailureHandler} {tuple : Tuple}
  {rules : List (CompiledRule σ)}

/-- The evaluator does what evaluation does, on the rules that apply to the tuple. -/
def Agrees (evaluator : Evaluator σ) (rules : List (CompiledRule σ)) (tuple : Tuple) : Prop :=
  ∀ rule ∈ rules, rule.appliesTo tuple = true → ∀ outcome,
    evaluator rule (rule.environment tuple outcome) =
      rule.evaluate (rule.environment tuple outcome)

theorem evaluateBy_eq (h : Agrees evaluator rules tuple) {rule : CompiledRule σ}
    (hrule : rule ∈ rules) (happlies : rule.appliesTo tuple = true) (run : Run) :
    run.evaluateBy evaluator tuple rule = run.evaluate tuple rule := by
  rw [evaluateBy, Run.evaluate, h rule hrule happlies]

theorem fireSequentialBy_eq (h : Agrees evaluator rules tuple) (index : Nat) (run : Run) :
    fireSequentialBy evaluator handler index tuple rules run =
      fireSequential handler index tuple rules run := by
  induction rules generalizing run with
  | nil => rfl
  | cons rule rest ih =>
    have hrest := ih (List.forall_mem_cons.mp h).2
    rw [fireSequentialBy, fireSequential]
    split
    · next happlies =>
      rw [evaluateBy_eq h List.mem_cons_self happlies]
      refine congrArg (Bind.bind _) (funext fun result => ?_)
      rcases result with failure | _ | bound
      · exact congrArg (Bind.bind _) (funext hrest)
      · exact hrest run
      · exact congrArg (Bind.bind _) (funext hrest)
    · exact hrest run

theorem selectBy_eq (h : Agrees evaluator rules tuple) (run : Run) :
    selectBy evaluator handler tuple rules run = select handler tuple rules run := by
  induction rules generalizing run with
  | nil => rfl
  | cons rule rest ih =>
    have hrest := ih (List.forall_mem_cons.mp h).2
    rw [selectBy, select]
    split
    · next happlies =>
      rw [evaluateBy_eq h List.mem_cons_self happlies]
      refine congrArg (Bind.bind _) (funext fun result => ?_)
      rcases result with failure | _ | bound
      · exact congrArg (Bind.bind _) (funext hrest)
      · exact hrest run
      · exact congrArg (Bind.bind · _) (hrest run)
    · exact hrest run

theorem onTupleBy_eq (h : Agrees evaluator rules tuple) (index : Nat) (sequential : Bool)
    (run : Run) :
    onTupleBy evaluator handler index tuple sequential rules run =
      onTuple sequential handler index tuple rules run := by
  rw [onTupleBy, onTuple, fireSequentialBy_eq h, fireBatchedBy, selectBy_eq h, fireBatched]

theorem onTuplesBy_eq {tuples : List Tuple} (h : ∀ tuple ∈ tuples, Agrees evaluator rules tuple)
    (sequential : Bool) (index : Nat) (run : Run) :
    onTuplesBy evaluator handler sequential rules index tuples run =
      onTuples sequential handler rules index tuples run := by
  induction tuples generalizing index run with
  | nil => rfl
  | cons tuple rest ih =>
    obtain ⟨htuple, hrest⟩ := List.forall_mem_cons.mp h
    simp only [onTuplesBy, onTuples, onTupleBy_eq htuple, ih hrest]

end Run

theorem Ruleset.runBy_eq {ruleset : Ruleset σ} {evaluator : Evaluator σ} {mode : RunMode}
    {facts : List Fact}
    (h : ∀ rule tuple, ruleset.Evaluates mode.crossProduct facts rule tuple → ∀ outcome,
      evaluator rule (rule.environment tuple outcome) =
        rule.evaluate (rule.environment tuple outcome)) (run : Run) :
    ruleset.runBy evaluator mode facts run = ruleset.run mode facts run := by
  unfold runBy Ruleset.run
  dsimp only
  cases hmake : TupleGenerator.make (FactGroup.ofFacts facts ruleset.factNames)
    mode.crossProduct with
  | error failure => rfl
  | ok generator =>
    have hagrees : ∀ tuple ∈ generator.tuples, Run.Agrees evaluator ruleset.rules tuple :=
      fun tuple htuple rule hrule happlies =>
        h rule tuple ⟨hrule, ⟨generator, hmake, htuple⟩, happlies⟩
    exact Run.onTuplesBy_eq hagrees mode.sequential 0 run

namespace Engine

variable {engine : Engine σ} {source : RuleSource} {now : Instant} {request : Request σ}

theorem runBy_eq {evaluator : Evaluator σ} {ruleset : Ruleset σ}
    (h : ∀ run, ruleset.runBy evaluator engine.mode request.facts run =
      ruleset.run engine.mode request.facts run) :
    engine.runBy evaluator ruleset request = engine.run ruleset request := by
  have hrun := h (.start request.result request.stopped)
  unfold runBy Engine.run
  exact hrun ▸ rfl

theorem executeBy_eq (evaluator : Evaluator σ) :
    engine.executeBy evaluator source now request =
      match engine.rulesetFor source now request with
      | (.ok ruleset, engine) => engine.runBy evaluator ruleset request
      | (.error failure, engine) => (.error failure, engine) := by
  unfold executeBy rulesetFor
  cases request.carried with
  | some ruleset => rfl
  | none =>
    dsimp only
    rcases engine.get source now request.uri with ⟨_ | _, _⟩ <;> rfl

theorem EvaluatesOnly.mono {P Q : CompiledRule σ → Environment → Prop}
    (h : engine.EvaluatesOnly source now request P) (hPQ : ∀ rule env, P rule env → Q rule env) :
    engine.EvaluatesOnly source now request Q :=
  fun evaluator hagrees => h evaluator fun rule env hP => hagrees rule env (hPQ rule env hP)

/-- Only rules of the ruleset are evaluated, on tuples of the facts to which they apply. -/
theorem evaluatesOnly_of_found {ruleset : Ruleset σ}
    (hfound : (engine.rulesetFor source now request).1 = .ok ruleset) :
    engine.EvaluatesOnly source now request fun rule env => ∃ tuple outcome,
      ruleset.Evaluates engine.settings.crossProduct request.facts rule tuple ∧
        env = rule.environment tuple outcome := by
  intro evaluator hagrees
  rw [executeBy_eq, execute_eq]
  rcases engine.rulesetFor_cases source now request with
    ⟨failure, rulesets, hcase⟩ | ⟨ruleset', rulesets, hcase⟩
  · rw [hcase]
  · rw [hcase] at hfound ⊢
    cases hfound
    exact runBy_eq (Ruleset.runBy_eq fun rule tuple hevaluates outcome =>
      hagrees rule _ ⟨tuple, outcome, hevaluates, rfl⟩)

end Engine
end Rulebook
