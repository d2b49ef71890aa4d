import Rulebook.Json.Fields
import Rulebook.Json.Reader
import Rulebook.Rule

/-!
# Rules as JSON

Rules are kept as JSON. An expression names its form in the member `type`, or in the first place of
an array. Inside an expression the forms may also be counted, and a kind may be written as an
object with one empty member.
-/
namespace Rulebook

open Json

namespace Kind

/-- `{"boolean": null}` is read like `"boolean"`; inside expressions also `{"boolean": {}}`. -/
def read? (inner : Bool) : Json → Option Kind
  | .string name => ofFileName? name
  | .object [(name, .null)] => ofFileName? name
  | .object [(name, .object [])] => if inner then ofFileName? name else none
  | _ => none

def toJson (kind : Kind) : Json := .string kind.fileName

end Kind

namespace Expression

inductive Form where
  | value
  | values
  | operator
  | function
  | reference
deriving DecidableEq

namespace Form

def all : List Form := [value, values, operator, function, reference]

def name : Form → String
  | value => "value"
  | values => "values"
  | operator => "operator"
  | function => "function"
  | reference => "reference"

def fields : Form → List String
  | value => ["value_type", "value"]
  | values => ["items"]
  | operator => ["name", "operands"]
  | function => ["name", "params"]
  | reference => ["name", "path"]

def read? (inner : Bool) : Json → Option Form
  | .string name => all.find? fun form => form.name = name
  | v => if inner then v.unsigned?.bind fun i => all[i]? else none

end Form

/-- The form of an expression and its fields. -/
def parts? (inner : Bool) : Json → Option (Form × Fields)
  | .object members => do
    let tag ← Fields.member? members "type"
    let form ← tag.bind (Form.read? inner)
    let fields ← Fields.ofMembers? form.fields members
    pure (form, fields)
  | .array (tag :: items) => do
    let form ← Form.read? inner tag
    let fields ← Fields.ofItems? form.fields items
    pure (form, fields)
  | _ => none

def readParam? (read : Json → Option Expression) (v : Json) : Option (String × Expression) := do
  let fields ← Fields.of? ["name", "value"] v
  let name ← fields.required? 0 Json.string?
  let value ← fields.required? 1 read
  pure (name, value)

/-- The depth of the value bounds the depth of the expression. -/
def readWithin? : Nat → Bool → Json → Option Expression
  | 0, _, _ => none
  | fuel + 1, inner, v => do
    let (form, fields) ← parts? inner v
    let read := readWithin? fuel true
    match form with
    | .value => do
      let kind ← fields.optional? 0 (Kind.read? true)
      let value ← fields.default? 1 .null (some ·.ordered)
      pure (.value kind value)
    | .values => do
      let items ← fields.required? 0 (Json.list? read)
      pure (.values items)
    | .operator => do
      let name ← fields.required? 0 Json.string?
      let operands ← fields.default? 1 [] (Json.list? read)
      pure (.operator name operands)
    | .function => do
      let name ← fields.required? 0 Json.string?
      let params ← fields.default? 1 [] (Json.list? (readParam? read))
      pure (.function name params)
    | .reference => do
      let name ← fields.required? 0 Json.string?
      let path ← fields.optional? 1 Json.string?
      pure (.reference name path)

def read? (v : Json) : Option Expression := readWithin? (v.depth + 1) false v

mutual

def toJson : Expression → Json
  | .value none v => .object [("type", .string "value"), ("value", v)]
  | .value (some kind) v =>
    .object [("type", .string "value"), ("value", v), ("value_type", kind.toJson)]
  | .values items => .object [("items", .array (itemsToJson items)), ("type", .string "values")]
  | .operator name operands =>
    .object [("name", .string name), ("operands", .array (itemsToJson operands)),
      ("type", .string "operator")]
  | .function name params =>
    .object [("name", .string name), ("params", .array (paramsToJson params)),
      ("type", .string "function")]
  | .reference name none => .object [("name", .string name), ("type", .string "reference")]
  | .reference name (some path) =>
    .object [("name", .string name), ("path", .string path), ("type", .string "reference")]

def itemsToJson : List Expression → List Json
  | [] => []
  | item :: rest => toJson item :: itemsToJson rest

def paramsToJson : List (String × Expression) → List Json
  | [] => []
  | (name, v) :: rest =>
    .object [("name", .string name), ("value", toJson v)] :: paramsToJson rest

end

end Expression

namespace Attribute

def read? (v : Json) : Option Attribute := do
  let fields ← Fields.of? ["name", "value_type", "value"] v
  let name ← fields.required? 0 Json.string?
  let kind ← fields.default? 1 .any (Kind.read? false)
  let value ← fields.default? 2 .null (some ·.ordered)
  pure { name, kind, value }

def toJson (entry : Attribute) : Json :=
  .object [("name", .string entry.name), ("value", entry.value),
    ("value_type", entry.kind.toJson)]

end Attribute

namespace FactDeclaration

def read? (v : Json) : Option FactDeclaration := do
  let fields ← Fields.of? ["name", "type_name"] v
  let name ← fields.required? 0 Json.string?
  let typeName ← fields.required? 1 Json.string?
  pure { name, typeName }

def toJson (fact : FactDeclaration) : Json :=
  .object [("name", .string fact.name), ("type_name", .string fact.typeName)]

end FactDeclaration

namespace ActionCall

def read? (v : Json) : Option ActionCall := do
  let fields ← Fields.of? ["name", "params"] v
  let name ← fields.required? 0 Json.string?
  let params ← fields.default? 1 [] (Json.list? (Expression.readParam? Expression.read?))
  pure { name, params }

def toJson (action : ActionCall) : Json :=
  .object [("name", .string action.name),
    ("params", .array (Expression.paramsToJson action.params))]

end ActionCall

namespace Rule

def read? (v : Json) : Option Rule := do
  let fields ← Fields.of? ["attributes", "facts", "predicate", "actions"] v
  let attributes ← fields.default? 0 [] (Json.list? Attribute.read?)
  let facts ← fields.default? 1 [] (Json.list? FactDeclaration.read?)
  let predicate ← fields.required? 2 Expression.read?
  let actions ← fields.default? 3 [] (Json.list? ActionCall.read?)
  pure { attributes, facts, predicate, actions }

def readList? (v : Json) : Option (List Rule) := Json.list? Rule.read? v

/-- What is needed to read a rule. Other members of a rule and of its parts are passed over, except
within expressions. -/
def need : Need :=
  let param := Need.fields [("name", .whole), ("value", .whole)]
  .fields
    [("attributes", .items (.fields [("name", .whole), ("value_type", .whole), ("value", .whole)])),
      ("facts", .items (.fields [("name", .whole), ("type_name", .whole)])),
      ("predicate", .whole),
      ("actions", .items (.fields [("name", .whole), ("params", .items param)]))]

def ofText? (text : String) : Option Rule := do Rule.read? (← Json.readNeeded? need text)

def listOfText? (text : String) : Option (List Rule) := do
  readList? (← Json.readNeeded? (.items need) text)

def toJson (rule : Rule) : Json :=
  .object [("actions", .array (rule.actions.map ActionCall.toJson)),
    ("attributes", .array (rule.attributes.map Attribute.toJson)),
    ("facts", .array (rule.facts.map FactDeclaration.toJson)),
    ("predicate", rule.predicate.toJson)]

def listToJson (rules : List Rule) : Json := .array (rules.map Rule.toJson)

end Rule

namespace Fact

def read? (v : Json) : Option Fact := do
  let fields ← Fields.of? ["type_name", "data"] v
  let typeName ← fields.required? 0 Json.string?
  let data ← fields.required? 1 (some ·.ordered)
  pure { typeName, data }

def readList? (v : Json) : Option (List Fact) := Json.list? Fact.read? v

end Fact
end Rulebook
