import Rulebook.Json.Text
import Rulebook.Rule.Json

/-!
# The text of rules

Rules are written record by record. The members of a record stand in the order of its fields, an
expression names its form first, and a kind or a path that is absent is left out.
-/
namespace Rulebook

namespace Expression

mutual

def written : Expression → Json
  | .value none v => .object [("type", .string "value"), ("value", v)]
  | .value (some kind) v =>
    .object [("type", .string "value"), ("value_type", kind.toJson), ("value", v)]
  | .values items => .object [("type", .string "values"), ("items", .array (itemsWritten items))]
  | .operator name operands =>
    .object [("type", .string "operator"), ("name", .string name),
      ("operands", .array (itemsWritten operands))]
  | .function name params =>
    .object [("type", .string "function"), ("name", .string name),
      ("params", .array (paramsWritten params))]
  | .reference name none => .object [("type", .string "reference"), ("name", .string name)]
  | .reference name (some path) =>
    .object [("type", .string "reference"), ("name", .string name), ("path", .string path)]

def itemsWritten : List Expression → List Json
  | [] => []
  | item :: rest => written item :: itemsWritten rest

def paramsWritten : List (String × Expression) → List Json
  | [] => []
  | (name, v) :: rest =>
    .object [("name", .string name), ("value", written v)] :: paramsWritten rest

end

end Expression

def Attribute.written (entry : Attribute) : Json :=
  .object [("name", .string entry.name), ("value_type", entry.kind.toJson), ("value", entry.value)]

def ActionCall.written (action : ActionCall) : Json :=
  .object [("name", .string action.name),
    ("params", .array (Expression.paramsWritten action.params))]

namespace Rule

def written (rule : Rule) : Json :=
  .object [("attributes", .array (rule.attributes.map Attribute.written)),
    ("facts", .array (rule.facts.map FactDeclaration.toJson)),
    ("predicate", rule.predicate.written),
    ("actions", .array (rule.actions.map ActionCall.written))]

def listWritten (rules : List Rule) : Json := .array (rules.map written)

def listText (rules : List Rule) : String := (listWritten rules).text

end Rule
end Rulebook
