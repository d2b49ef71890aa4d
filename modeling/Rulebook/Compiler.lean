import Rulebook.CompiledRule
import Rulebook.Rule.Json
import Rulebook.Json.Reader

/-!
# Compiling rules

Names are looked up and shapes are checked when a rule is compiled, so that a compiled rule refers
to nothing that is not there. A ruleset is compiled in the order of priority; a rule that does not
compile either ends the compilation or is left out.
-/
namespace Rulebook

/-- What rules may name. -/
structure Vocabulary (σ : Type) where
  operators : Operators σ
  functions : Table (Function σ)
  actions : Table Action
  schemas : Schemas

structure Compiler (σ : Type) extends Vocabulary σ where
  /-- A rule that does not compile ends the compilation. -/
  strict : Bool
  /-- Rules outside the dates of their validity are left out. -/
  checksDates : Bool
  /-- What a rule without a name is called, by its place in the ruleset. -/
  anonymous : Nat → String

/-- The text of a reference in a placeholder `${…}`; it is not empty and has no braces or dollar
signs. -/
def placeholder? (v : Json) : Option (List Char) :=
  match v with
  | .string text =>
    match text.toList with
    | '$' :: '\x7b' :: rest =>
      let inner := rest.dropLast
      if rest.getLast? = some '\x7d' ∧ inner ≠ [] ∧
          !inner.any (fun c => c = '\x7b' || c = '\x7d' || c = '$')
      then some inner else none
    | _ => none
  | _ => none

/-- The name before the first point, and the path after it. -/
def splitReference (text : List Char) : String × Option String :=
  let name := text.takeWhile (· ≠ '.')
  (String.ofList name,
    match text.dropWhile (· ≠ '.') with
    | [] => none
    | _ :: path => some (String.ofList path))

/-- The names that the expressions of one rule may refer to. -/
structure Scope where
  ruleId : String
  attributes : Table Shape
  facts : Table Shape

namespace Scope

def fault (scope : Scope) (place : String) (fault : ExpressionFault) : Failure :=
  .rule scope.ruleId (.expression place fault)

/-- Attributes come before facts, and both before the names that are reserved. -/
def base? (scope : Scope) (name : String) : Option (Reference.Base × Shape) :=
  match (Table.get? scope.attributes name).or (Table.get? scope.facts name) with
  | some shape => some (.named name, shape)
  | none => (Reference.Base.reserved? name).map fun base => (base, base.shape)

def reference (scope : Scope) (name : String) (path : Option String) :
    Except Failure Reference :=
  let written := match path with
    | some path => name ++ "." ++ path
    | none => name
  match scope.base? name with
  | none => .error (.reference scope.ruleId written .undeclaredName)
  | some (base, shape) =>
    match Reference.make base name path shape with
    | .ok reference => .ok reference
    | .error fault => .error (.reference scope.ruleId written (.path fault))

/-- A constant must fit the kind it is declared with; a null constant has no shape of its own. -/
def constant {σ : Type} (scope : Scope) (place : String) (kind : Option Kind) (v : Json) :
    Except Failure (Term σ) :=
  match kind with
  | some declared =>
    if !declared.accepts v then .error (scope.fault place (.constant declared v))
    else if v.isNull then .ok (.ofJson v)
    else .ok (.constant v (.ofKind declared))
  | none => .ok (.ofJson v)

end Scope

namespace Vocabulary

variable {σ : Type}

mutual

def term (words : Vocabulary σ) (scope : Scope) (place : String) :
    Expression → Except Failure (Term σ)
  | .value kind v =>
    match placeholder? v with
    | some text => do
      let (name, path) := splitReference text
      pure (.reference (← scope.reference name path))
    | none => scope.constant place kind v
  | .values items => do
    pure (.list (← terms words scope place 0 items))
  | .operator name operands =>
    match Table.get? words.operators name with
    | none => .error (.unknownOperator scope.ruleId name)
    | some rule => do
      let here := place ++ "." ++ name
      let operands ← terms words scope here 0 operands
      match rule.make operands with
      | .ok formula => pure (.formula formula)
      | .error fault => throw (scope.fault here (.operands fault))
  | .function name params =>
    match Table.get? words.functions name with
    | none => .error (.unknownFunction scope.ruleId name)
    | some function => do
      pure (.call name function (← parameters words scope (place ++ "." ++ name) [] params))
  | .reference name path => do
    pure (.reference (← scope.reference name path))

/-- The terms of a list; each has its index in its place. -/
def terms (words : Vocabulary σ) (scope : Scope) (place : String) (index : Nat) :
    List Expression → Except Failure (List (Term σ))
  | [] => .ok []
  | item :: rest => do
    let first ← term words scope (place ++ "[" ++ toString index ++ "]") item
    let others ← terms words scope place (index + 1) rest
    pure (first :: others)

/-- The terms of named parameters, none of which may come twice. -/
def parameters (words : Vocabulary σ) (scope : Scope) (place : String) (seen : List String) :
    List (String × Expression) → Except Failure (List (String × Term σ))
  | [] => .ok []
  | (name, v) :: rest =>
    if seen.contains name then .error (scope.fault place (.parameterTwice name))
    else do
      let first ← term words scope (place ++ "(" ++ name ++ ")") v
      let others ← parameters words scope place (name :: seen) rest
      pure ((name, first) :: others)

end

/-- A term where a formula is needed: it must be able to have a truth value. -/
def asFormula (scope : Scope) (place : String) : Term σ → Except Failure (Formula σ)
  | .formula formula => .ok formula
  | .call name function params =>
    match function.returns with
    | .boolean | .any => .ok (.value (.call name function params))
    | returns => .error (scope.fault place (.functionAsPredicate name returns))
  | .reference r =>
    if r.shape.isBooleanLike then .ok (.value (.reference r))
    else .error (.reference scope.ruleId r.text (.notTruth r.shape))
  | other => .error (scope.fault place (.shapeAsPredicate other.shape))

/-- The predicate of a rule. A null constant counts as false. -/
def predicate (words : Vocabulary σ) (scope : Scope) (place : String) (expression : Expression) :
    Except Failure (Formula σ) :=
  match expression with
  | .value _ v =>
    match placeholder? v, v with
    | none, .bool b => .ok (.constant (.ofBool b))
    | none, .null => .ok (.constant .no)
    | none, other => .error (scope.fault place (.notTruth other))
    | some _, _ => do asFormula scope place (← term words scope place expression)
  | .values _ => .error (scope.fault place .listAsPredicate)
  | _ => do asFormula scope place (← term words scope place expression)

def actionsFrom (words : Vocabulary σ) (scope : Scope) (index : Nat) :
    List ActionCall → Except Failure (List (CompiledAction σ))
  | [] => .ok []
  | call :: rest =>
    match Table.get? words.actions call.name with
    | none => .error (.unknownAction scope.ruleId call.name)
    | some action => do
      let place := "actions[" ++ toString index ++ "]." ++ call.name
      let params ← parameters words scope place [] call.params
      let others ← actionsFrom words scope (index + 1) rest
      pure (⟨call.name, action, params⟩ :: others)

end Vocabulary

/-- The attributes of a rule with their shapes; each stands once and fits its kind. -/
def attributeTables (ruleId : String) (values : Table Json) (shapes : Table Shape) :
    List Attribute → Except Failure (Table Json × Table Shape)
  | [] => .ok (values, shapes)
  | entry :: rest =>
    if Table.has values entry.name then .error (.rule ruleId (.attributeTwice entry.name))
    else if !entry.kind.accepts entry.value then
      .error (.rule ruleId (.attributeValue entry.name entry.kind entry.value))
    else
      let kind := match entry.kind with
        | .any => Kind.of entry.value
        | declared => declared
      attributeTables ruleId (Table.put values entry.name entry.value)
        (Table.put shapes entry.name (.ofKind kind)) rest

def factShapes (ruleId : String) (schemas : Schemas) (shapes : Table Shape) :
    List FactDeclaration → Except Failure (Table Shape)
  | [] => .ok shapes
  | fact :: rest =>
    if Table.has shapes fact.name then .error (.rule ruleId (.factTwice fact.name))
    else factShapes ruleId schemas
      (Table.put shapes fact.name (Schemas.resolve schemas fact.typeName)) rest

/-- When rules are valid: the instant at which an attribute lies, if it has one. -/
def Rule.bound? (rule : Rule) (name : String) : Except Failure (Option Instant) :=
  let fail := fun fault => Except.error (Failure.rule (rule.name?.getD "") fault)
  match (rule.attribute? name).map Attribute.value with
  | none => .ok none
  | some .null => .ok none
  | some (.string text) =>
    match Instant.parse? text with
    | some instant => .ok (some instant)
    | none => fail (.unreadableDate name text)
  | some other => fail (.notADate name other)

/-- From the start on and before the end; a bound that is missing imposes nothing. -/
def Rule.isValidAt (rule : Rule) (now : Instant) : Except Failure Bool := do
  let start ← rule.bound? "startDate"
  if start.any fun start => now.compare start = .lt then pure false
  else
    let expiry ← rule.bound? "expireDate"
    pure (!expiry.any fun expiry => now.compare expiry ≠ .lt)

namespace Compiler

variable {σ : Type}

def ruleId (compiler : Compiler σ) (place : Nat) (rule : Rule) : String :=
  match rule.name? with
  | some name => if name = "" then compiler.anonymous place else name
  | none => compiler.anonymous place

def compile (compiler : Compiler σ) (place : Nat) (rule : Rule) :
    Except Failure (CompiledRule σ) := do
  let id := compiler.ruleId place rule
  let (attributes, shapes) ← attributeTables id [] [] rule.attributes
  let facts ← factShapes id compiler.schemas [] rule.facts
  let scope : Scope := ⟨id, shapes, facts⟩
  let formula ← compiler.predicate scope "predicate" rule.predicate
  let actions ← compiler.actionsFrom scope 0 rule.actions
  pure { id, formula, actions, attributes, priority := rule.priority, facts := rule.facts }

/-- Adds the fact names of a rule, all of them or none. -/
def declareFacts (names : FactNames) (rule : CompiledRule σ) : Except Failure FactNames :=
  let clashes := rule.facts.findSome? fun fact =>
    match names.check fact.name fact.typeName with
    | .ok () => none
    | .error clash => some clash
  match clashes with
  | some clash => .error (.rule rule.id (.nameClash clash))
  | none => .ok (rule.facts.foldl (fun names fact => names.add fact.name fact.typeName) names)

/-- The ruleset with one more rule, unless the rule is not valid now. -/
def accept (compiler : Compiler σ) (now : Instant) (ruleset : Ruleset σ) (rule : Rule) :
    Except Failure (Ruleset σ) := do
  let valid ← if compiler.checksDates then rule.isValidAt now else pure true
  if valid then
    let compiled ← compiler.compile ruleset.rules.length rule
    let names ← declareFacts ruleset.factNames compiled
    pure ⟨ruleset.rules ++ [compiled], names⟩
  else pure ruleset

/-- Rules that are not ignored, by descending priority; equal ones keep their order. -/
def ranked (rules : List Rule) : List Rule :=
  (rules.filter fun rule => !rule.isIgnored).mergeSort fun a b => b.priority ≤ a.priority

def acceptAll (compiler : Compiler σ) (now : Instant) (ruleset : Ruleset σ) :
    List Rule → Except Failure (Ruleset σ)
  | [] => .ok ruleset
  | rule :: rest =>
    match compiler.accept now ruleset rule with
    | .ok ruleset => acceptAll compiler now ruleset rest
    | .error failure =>
      if compiler.strict then .error failure else acceptAll compiler now ruleset rest

def compileAll (compiler : Compiler σ) (now : Instant) (rules : List Rule) :
    Except Failure (Ruleset σ) :=
  compiler.acceptAll now .empty (ranked rules)

def compileText (compiler : Compiler σ) (now : Instant) (text : String) :
    Except Failure (Ruleset σ) :=
  match Rule.listOfText? text with
  | some rules => compiler.compileAll now rules
  | none => .error .json

end Compiler
end Rulebook
