import Rulebook.CompiledRule
import Rulebook.Tuple

/-!
# Runs

A run takes the tuples of the facts one after the other and fires the rules that hold, in the order
of the ruleset. In sequential mode a rule sees what the rules before it have done on the same
tuple; in batched mode all rules of a tuple are evaluated first. A stop takes effect between
tuples.
-/
namespace Rulebook

structure FiredRule where
  ruleId : String
  tuple : Nat
deriving DecidableEq

/-- Decides what becomes of a rule that cannot be evaluated or whose actions fail: the run goes on
without it, or ends with a failure. The failures that have been passed over before are known. -/
structure FailureHandler where
  judge : List (String × Failure) → String → Failure → Except Failure Unit

namespace FailureHandler

def propagate : FailureHandler := ⟨fun _ _ failure => .error failure⟩

def skip : FailureHandler := ⟨fun _ _ _ => .ok ()⟩

end FailureHandler

/-- The handlers that are always at hand. -/
inductive FailurePolicy where
  | propagate
  | skip
deriving DecidableEq

def FailurePolicy.handler : FailurePolicy → FailureHandler
  | propagate => .propagate
  | skip => .skip

instance : Coe FailurePolicy FailureHandler := ⟨FailurePolicy.handler⟩

/-- What a run has done so far. -/
structure Run where
  outcome : Outcome
  fired : List FiredRule
  skipped : List (String × Failure)

namespace Run

variable {σ : Type}

def start (result : Json) (stopped : Bool) : Run := ⟨⟨result, stopped⟩, [], []⟩

def handle (run : Run) (handler : FailureHandler) (ruleId : String) (failure : Failure) :
    Except Failure Run :=
  match handler.judge run.skipped ruleId failure with
  | .ok () => .ok { run with skipped := run.skipped ++ [(ruleId, failure)] }
  | .error failure => .error failure

/-- Runs the actions of a rule. The rule has fired only if none of them fails. -/
def fire (run : Run) (handler : FailureHandler) (index : Nat) (ruleId : String)
    (bound : List BoundAction) : Except Failure Run :=
  match BoundAction.runAll ruleId bound run.outcome with
  | (.ok (), outcome) => .ok { run with outcome, fired := run.fired ++ [⟨ruleId, index⟩] }
  | (.error failure, outcome) => handle { run with outcome } handler ruleId failure

/-- The outcome of an evaluation, which itself does not fail. -/
def attempt {α : Type} (evaluation : Evaluation σ α) : Evaluation σ (Except Failure α) :=
  fun session =>
    let (result, session) := evaluation.run session
    (.ok result, session)

def evaluate (run : Run) (tuple : Tuple) (rule : CompiledRule σ) :
    Evaluation σ (Except Failure (Option (List BoundAction))) :=
  attempt (rule.evaluate (rule.environment tuple run.outcome))

/-- Each rule is evaluated and fired before the next one. -/
def fireSequential (handler : FailureHandler) (index : Nat) (tuple : Tuple) :
    List (CompiledRule σ) → Run → Evaluation σ Run
  | [], run => pure run
  | rule :: rest, run =>
    if rule.appliesTo tuple then do
      match ← run.evaluate tuple rule with
      | .ok none => fireSequential handler index tuple rest run
      | .ok (some bound) =>
        fireSequential handler index tuple rest
          (← liftExcept (run.fire handler index rule.id bound))
      | .error failure =>
        fireSequential handler index tuple rest
          (← liftExcept (run.handle handler rule.id failure))
    else fireSequential handler index tuple rest run

/-- The rules that hold, with their bound actions. -/
def select (handler : FailureHandler) (tuple : Tuple) :
    List (CompiledRule σ) → Run → Evaluation σ (List (String × List BoundAction) × Run)
  | [], run => pure ([], run)
  | rule :: rest, run =>
    if rule.appliesTo tuple then do
      match ← run.evaluate tuple rule with
      | .ok none => select handler tuple rest run
      | .ok (some bound) => do
        let (others, run) ← select handler tuple rest run
        pure ((rule.id, bound) :: others, run)
      | .error failure => do
        let run ← liftExcept (run.handle handler rule.id failure)
        select handler tuple rest run
    else select handler tuple rest run

def fireAll (handler : FailureHandler) (index : Nat) :
    List (String × List BoundAction) → Run → Except Failure Run
  | [], run => .ok run
  | (ruleId, bound) :: rest, run =>
    match run.fire handler index ruleId bound with
    | .ok run => fireAll handler index rest run
    | .error failure => .error failure

/-- All rules are evaluated before any of them fires. -/
def fireBatched (handler : FailureHandler) (index : Nat) (tuple : Tuple)
    (rules : List (CompiledRule σ)) (run : Run) : Evaluation σ Run := do
  let (matched, run) ← select handler tuple rules run
  liftExcept (fireAll handler index matched run)

def onTuple (sequential : Bool) (handler : FailureHandler) (index : Nat) (tuple : Tuple)
    (rules : List (CompiledRule σ)) (run : Run) : Evaluation σ Run :=
  if sequential then fireSequential handler index tuple rules run
  else fireBatched handler index tuple rules run

def onTuples (sequential : Bool) (handler : FailureHandler) (rules : List (CompiledRule σ)) :
    Nat → List Tuple → Run → Evaluation σ Run
  | _, [], run => pure run
  | index, tuple :: rest, run =>
    if run.outcome.stopped then pure run
    else do
      let run ← onTuple sequential handler index tuple rules run
      onTuples sequential handler rules (index + 1) rest run

end Run

/-- How a ruleset is run. -/
structure RunMode where
  sequential : Bool
  crossProduct : Bool
  handler : FailureHandler

namespace Ruleset

variable {σ : Type}

def run (ruleset : Ruleset σ) (mode : RunMode) (facts : List Fact) (run : Run) :
    Evaluation σ Run := do
  let groups := FactGroup.ofFacts facts ruleset.factNames
  let generator ← liftExcept (TupleGenerator.make groups mode.crossProduct)
  Run.onTuples mode.sequential mode.handler ruleset.rules 0 generator.tuples run

end Ruleset
end Rulebook
