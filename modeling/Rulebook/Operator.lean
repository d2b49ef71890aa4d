import Rulebook.Formula
import Rulebook.Pattern.Language

/-!
# Operators

An operator makes a formula out of operands, after checking how many there are and what shapes they
have. Fourteen operators are built in, for any language of patterns; any name may be given another
meaning.
-/
namespace Rulebook

mutual

/-- The shape of the values that a term has. A list has the shape of its items if they agree. -/
def Term.shape {σ : Type} : Term σ → Shape
  | .constant _ shape => shape
  | .list [] => .list .any
  | .list (first :: rest) =>
    .list (if Term.haveShape first.shape rest then first.shape else .any)
  | .reference r => r.shape
  | .call _ function _ => .ofKind function.returns
  | .formula _ => .boolean

def Term.haveShape {σ : Type} (shape : Shape) : List (Term σ) → Bool
  | [] => true
  | item :: rest => decide (item.shape = shape) && Term.haveShape shape rest

end

namespace Term

variable {σ : Type}

/-- A constant with the shape that its form gives. -/
def ofJson (value : Json) : Term σ := .constant value (.ofKind (.of value))

def constantText? : Term σ → Option String
  | constant value _ => value.string?
  | _ => none

end Term

inductive Operator where
  | not
  | and
  | or
  | isTrue
  | isFalse
  | isNull
  | equal
  | less
  | lessOrEqual
  | greater
  | greaterOrEqual
  | matchText
  | contains
  | containsAny
deriving DecidableEq

namespace Operator

variable {σ : Type}

def all : List Operator :=
  [not, and, or, isTrue, isFalse, isNull, equal, less, lessOrEqual, greater, greaterOrEqual,
    matchText, contains, containsAny]

def name : Operator → String
  | not => "not"
  | and => "and"
  | or => "or"
  | isTrue => "is-true"
  | isFalse => "is-false"
  | isNull => "is-null"
  | equal => "equal"
  | less => "less"
  | lessOrEqual => "less-or-equal"
  | greater => "greater"
  | greaterOrEqual => "greater-or-equal"
  | matchText => "match"
  | contains => "contains"
  | containsAny => "contains-any"

def ofName? (name : String) : Option Operator := all.find? fun operator => operator.name = name

def arity : Operator → Arity
  | and | or => .atLeast 1
  | not | isTrue | isFalse | isNull => .exactly 1
  | _ => .exactly 2

/-- The first operand that cannot hold a truth value, counted from the given position. -/
def requireBoolean (operator : Operator) (position : Nat) :
    List (Term σ) → Except OperandFault Unit
  | [] => .ok ()
  | operand :: rest =>
    if operand.shape.isBooleanLike then requireBoolean operator (position + 1) rest
    else .error (.notBoolean operator.name position operand.shape)

def makeRelation (operator : Operator) (relation : Relation) (left right : Term σ) :
    Except OperandFault (Formula σ) :=
  let comparable := match relation with
    | .equal => left.shape.isEquatableWith right.shape
    | _ => left.shape.isOrderedWith right.shape
  if comparable then .ok (.relation relation left right)
  else .error (.incomparable operator.name left.shape right.shape)

/-- A constant pattern is read at once. -/
def makePattern (subject pattern : Term σ) (language : PatternLanguage := Pattern.language) :
    Except OperandFault (Formula σ) :=
  match pattern.constantText? with
  | none => .ok (.matchesTerm language subject pattern)
  | some source =>
    match language.readWhole source with
    | .ok read => .ok (.matchesPattern subject read)
    | .error fault => .error (.badPattern source fault)

def makeMatch (language : PatternLanguage) (subject pattern : Term σ) :
    Except OperandFault (Formula σ) :=
  if !subject.shape.isTextLike then .error (.notText .left subject.shape)
  else if !pattern.shape.isTextLike then .error (.notText .right pattern.shape)
  else makePattern subject pattern language

def makeContains (operator : Operator) (containment : Containment) (collection elements : Term σ) :
    Except OperandFault (Formula σ) :=
  if collection.shape.isCollectionLike then .ok (.contains containment collection elements)
  else .error (.notCollection operator.name collection.shape)

def make (language : PatternLanguage) (operator : Operator) (operands : List (Term σ)) :
    Except OperandFault (Formula σ) :=
  let miscounted : Except OperandFault (Formula σ) :=
    .error (.count operator.name operator.arity operands.length)
  match operator, operands with
  | and, _ :: _ => do
    requireBoolean operator 1 operands
    pure (.and operands)
  | or, _ :: _ => do
    requireBoolean operator 1 operands
    pure (.or operands)
  | not, [operand] => do
    requireBoolean operator 1 operands
    pure (.not operand)
  | isTrue, [operand] => do
    requireBoolean operator 1 operands
    pure (.check .isTrue operand)
  | isFalse, [operand] => do
    requireBoolean operator 1 operands
    pure (.check .isFalse operand)
  | isNull, [operand] => .ok (.check .isNull operand)
  | equal, [left, right] => makeRelation operator .equal left right
  | less, [left, right] => makeRelation operator .less left right
  | lessOrEqual, [left, right] => makeRelation operator .lessOrEqual left right
  | greater, [left, right] => makeRelation operator .greater left right
  | greaterOrEqual, [left, right] => makeRelation operator .greaterOrEqual left right
  | matchText, [subject, pattern] => makeMatch language subject pattern
  | contains, [collection, elements] => makeContains operator .all collection elements
  | containsAny, [collection, elements] => makeContains operator .any collection elements
  | _, _ => miscounted

end Operator

/-- A rule for making formulas, under a name of its own. -/
structure OperatorRule (σ : Type) where
  name : String
  make : List (Term σ) → Except OperandFault (Formula σ)

abbrev Operators (σ : Type) := Table (OperatorRule σ)

namespace Operators

variable {σ : Type}

def builtIn (language : PatternLanguage) (operator : Operator) : OperatorRule σ :=
  ⟨operator.name, operator.make language⟩

/-- All built-in operators, with patterns of the language. -/
def withLanguage (language : PatternLanguage) : Operators σ :=
  Table.ofEntries (Operator.all.map fun operator => (operator.name, builtIn language operator))

def standard : Operators σ := withLanguage Pattern.language

/-- The rule takes the place of one that has its name. -/
def register (operators : Operators σ) (rule : OperatorRule σ) : Operators σ :=
  Table.put operators rule.name rule

end Operators
end Rulebook
