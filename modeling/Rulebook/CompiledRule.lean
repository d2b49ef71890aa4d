import Rulebook.Action
import Rulebook.FactNames
import Rulebook.Operator
import Rulebook.Rule

/-!
# Compiled rules

A compiled rule has its formula and its actions bound to what they name. On a tuple it applies if
the tuple has all its facts; then the formula is tested and the arguments of all actions are
evaluated before any of them runs.
-/
namespace Rulebook

structure CompiledAction (σ : Type) where
  name : String
  action : Action
  params : List (String × Term σ)

structure CompiledRule (σ : Type) where
  id : String
  formula : Formula σ
  actions : List (CompiledAction σ)
  attributes : Table Json
  priority : Int
  facts : List FactDeclaration

namespace CompiledRule

variable {σ : Type}

def appliesTo (rule : CompiledRule σ) (facts : Table Json) : Bool :=
  rule.facts.all fun fact => Table.has facts fact.name

def environment (rule : CompiledRule σ) (facts : Table Json) (outcome : Outcome) : Environment where
  ruleId := rule.id
  attributes := rule.attributes
  facts := facts
  context := outcome.result
  stopped := outcome.stopped

/-- Only a formula that is true matches; null is no match. -/
def holds (rule : CompiledRule σ) (env : Environment) : Evaluation σ Bool := do
  pure ((← rule.formula.test env) = .yes)

def bindActions (env : Environment) :
    List (CompiledAction σ) → Evaluation σ (List BoundAction)
  | [] => pure []
  | action :: rest => do
    let arguments ← Term.evaluateParams env [] action.params
    let others ← bindActions env rest
    pure (⟨action.name, action.action, arguments⟩ :: others)

def bind (rule : CompiledRule σ) (env : Environment) : Evaluation σ (List BoundAction) :=
  bindActions env rule.actions

/-- The bound actions if the rule holds. -/
def evaluate (rule : CompiledRule σ) (env : Environment) :
    Evaluation σ (Option (List BoundAction)) := do
  if ← rule.holds env then
    let bound ← rule.bind env
    pure (some bound)
  else pure none

end CompiledRule

/-- Compiled rules by descending priority, and the fact names they share. -/
structure Ruleset (σ : Type) where
  rules : List (CompiledRule σ)
  factNames : FactNames

namespace Ruleset

variable {σ : Type}

def empty : Ruleset σ := ⟨[], []⟩

def actionCount (ruleset : Ruleset σ) : Nat :=
  ruleset.rules.foldl (fun count rule => count + rule.actions.length) 0

end Ruleset
end Rulebook
