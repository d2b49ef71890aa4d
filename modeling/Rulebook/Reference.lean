import Rulebook.Path

/-!
# References

A reference starts at a name and follows a path. The name stands for an attribute of the rule, for
a fact, or for one of three things that every rule may refer to: the result so far, the rule's
identifier, and the stop signal.
-/
namespace Rulebook

/-- What a rule is evaluated in. Attributes hide facts of the same name. -/
structure Environment where
  ruleId : String
  attributes : Table Json
  facts : Table Json
  context : Json
  stopped : Bool

namespace Environment

def get? (env : Environment) (name : String) : Option Json :=
  (Table.get? env.attributes name).or (Table.get? env.facts name)

end Environment

namespace Reference

inductive Base where
  | named (name : String)
  | context
  | ruleName
  | controller
deriving DecidableEq

namespace Base

/-- The names that stand for themselves when no attribute or fact has them. -/
def reserved? (name : String) : Option Base :=
  match name with
  | "ctx" => some context
  | "ruleName" => some ruleName
  | "engineController" => some controller
  | _ => none

def shape : Base → Shape
  | named _ | context => .any
  | ruleName => .string
  | controller => .record [("stopRequested", .boolean)]

/-- A name that is bound to nothing is null. -/
def value (env : Environment) : Base → Json
  | named name => (env.get? name).getD .null
  | context => env.context
  | ruleName => .string env.ruleId
  | controller => .object [("stopRequested", .bool env.stopped)]

end Base
end Reference

structure Reference where
  base : Reference.Base
  path : Path
  /-- The shape of the values that the reference has. -/
  shape : Shape
  text : String

namespace Reference

/-- A name with a path after it, as it is written. -/
def written (name : String) : Path → String
  | [] => name
  | path => name ++ "." ++ path.text

def make (base : Base) (name : String) (path : Option String) (baseShape : Shape) :
    Except PathFault Reference := do
  let path ← Path.parse (path.getD "")
  let shape ← path.check baseShape
  pure { base, path, shape, text := written name path }

def resolve (reference : Reference) (env : Environment) : Except Failure Json :=
  reference.path.resolve (reference.base.value env)

end Reference
end Rulebook
