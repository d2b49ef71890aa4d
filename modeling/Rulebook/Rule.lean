import Rulebook.Kind

/-!
# Rules

A rule names facts of declared types, has attributes, and runs its actions when its predicate is
true. Predicates and parameters are expressions.
-/
namespace Rulebook

inductive Expression where
  | value (kind : Option Kind) (value : Json)
  | values (items : List Expression)
  | operator (name : String) (operands : List Expression)
  | function (name : String) (params : List (String × Expression))
  | reference (name : String) (path : Option String)
deriving Inhabited

namespace Expression

def null : Expression := .value none .null

/-- A constant that is declared with the kind it has. -/
def constant (v : Json) : Expression := .value (some (.of v)) v

def typed (kind : Kind) (v : Json) : Expression := .value (some kind) v

/-- A text that stands for a reference. -/
def placeholder (reference : String) : Expression :=
  .value (some .string) (.string (String.ofList ('$' :: '\x7b' :: reference.toList ++ ['\x7d'])))

def name (name : String) : Expression := .reference name none

def field (name path : String) : Expression := .reference name (some path)

def and (operands : List Expression) : Expression := .operator "and" operands

def or (operands : List Expression) : Expression := .operator "or" operands

def not (operand : Expression) : Expression := .operator "not" [operand]

def equal (left right : Expression) : Expression := .operator "equal" [left, right]

end Expression

structure Attribute where
  name : String
  kind : Kind
  value : Json

structure FactDeclaration where
  name : String
  typeName : String
deriving DecidableEq

structure ActionCall where
  name : String
  params : List (String × Expression)

structure Rule where
  attributes : List Attribute
  facts : List FactDeclaration
  predicate : Expression
  actions : List ActionCall

namespace Rule

def ofName (name : String) (predicate : Expression) : Rule :=
  { attributes := [⟨"ruleName", .string, .string name⟩], facts := [], predicate, actions := [] }

/-- The attribute takes the place of those that have its name, and becomes the last one. -/
def withAttribute (rule : Rule) (entry : Attribute) : Rule :=
  { rule with attributes :=
    (rule.attributes.filter fun held => held.name ≠ entry.name) ++ [entry] }

def withPriority (rule : Rule) (priority : Whole) : Rule :=
  rule.withAttribute ⟨"priority", .integer, .number (.whole priority)⟩

def asIgnored (rule : Rule) : Rule := rule.withAttribute ⟨"ignored", .boolean, .bool true⟩

def withFact (rule : Rule) (fact : FactDeclaration) : Rule :=
  { rule with facts := rule.facts ++ [fact] }

def withAction (rule : Rule) (action : ActionCall) : Rule :=
  { rule with actions := rule.actions ++ [action] }

def attribute? (rule : Rule) (name : String) : Option Attribute :=
  rule.attributes.find? fun entry => entry.name = name

def name? (rule : Rule) : Option String := (rule.attribute? "ruleName").bind (·.value.string?)

/-- Zero unless the attribute is a signed integer. -/
def priority (rule : Rule) : Int :=
  ((rule.attribute? "priority").bind (·.value.signed?)).getD 0

def isIgnored (rule : Rule) : Bool :=
  ((rule.attribute? "ignored").bind (·.value.bool?)).getD false

end Rule

structure Fact where
  typeName : String
  data : Json

end Rulebook
