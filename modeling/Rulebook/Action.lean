import Rulebook.Arguments
import Rulebook.Failure

/-!
# Actions

Actions change the result of a run and may ask it to stop. What an action has changed before it
fails stays changed.
-/
namespace Rulebook

structure Outcome where
  result : Json
  stopped : Bool

/-- Takes the identifier of the rule and the arguments. -/
structure Action where
  run : String → Arguments → Outcome → Except Failure Unit × Outcome

structure BoundAction where
  name : String
  action : Action
  arguments : Arguments

namespace BoundAction

/-- Runs the actions in order, up to the first one that fails. -/
def runAll (ruleId : String) : List BoundAction → Outcome → Except Failure Unit × Outcome
  | [], outcome => (.ok (), outcome)
  | bound :: rest, outcome =>
    match bound.action.run ruleId bound.arguments outcome with
    | (.ok (), outcome) => runAll ruleId rest outcome
    | (.error failure, outcome) => (.error failure, outcome)

end BoundAction
end Rulebook
