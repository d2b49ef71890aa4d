import Rulebook.Comparison
import Rulebook.FunctionCache
import Rulebook.PatternLanguage
import Rulebook.Reference

/-!
# Terms and formulas

A compiled rule is a formula over terms. Terms have values and formulas have truth values, with
null for neither true nor false. Evaluation may call functions, so it passes a session along;
what a failed evaluation has changed there stays changed.
-/
namespace Rulebook

inductive Check where
  | isTrue
  | isFalse
  | isNull
deriving DecidableEq

inductive Containment where
  | all
  | any
deriving DecidableEq

mutual

inductive Term (σ : Type) where
  | constant (value : Json) (shape : Shape)
  | list (items : List (Term σ))
  | reference (reference : Reference)
  | call (name : String) (function : Function σ) (params : List (String × Term σ))
  | formula (formula : Formula σ)

inductive Formula (σ : Type) where
  | constant (truth : Truth)
  | value (operand : Term σ)
  | and (operands : List (Term σ))
  | or (operands : List (Term σ))
  | not (operand : Term σ)
  | check (check : Check) (operand : Term σ)
  | relation (relation : Relation) (left right : Term σ)
  /-- The pattern is known from the start. -/
  | matchesPattern (subject : Term σ) (pattern : TextPattern)
  /-- The pattern is read when the formula is evaluated. -/
  | matchesTerm (language : PatternLanguage) (subject pattern : Term σ)
  | contains (containment : Containment) (collection elements : Term σ)

end

/-- Evaluations read and change a session, and may fail. -/
abbrev Evaluation (σ α : Type) := ExceptT Failure (StateM (Session σ)) α

namespace Containment

def holds : Containment → List Json → List Json → Bool
  | all => Json.containsAll
  | any => Json.containsAny

end Containment

namespace Check

/-- Only a test for null takes values that are no truth values. -/
def test : Check → Json → Except Failure Truth
  | isNull, v => .ok (.ofBool v.isNull)
  | isTrue, v => (Truth.ofJson v).map fun t => .ofBool (t = .yes)
  | isFalse, v => (Truth.ofJson v).map fun t => .ofBool (t = .no)

end Check

mutual

def Term.evaluate {σ : Type} (env : Environment) : Term σ → Evaluation σ Json
  | .constant value _ => pure value
  | .list items => do pure (.array (← Term.evaluateItems env items))
  | .reference r => liftExcept (r.resolve env)
  | .call name function params => do
    let arguments ← Term.evaluateParams env [] params
    fun session => session.call name function arguments
  | .formula formula => do pure (← Formula.test env formula).toJson

def Term.evaluateItems {σ : Type} (env : Environment) : List (Term σ) → Evaluation σ (List Json)
  | [] => pure []
  | item :: rest => do
    let value ← Term.evaluate env item
    let others ← Term.evaluateItems env rest
    pure (value :: others)

/-- The arguments so far, and the values of the parameters added to them. -/
def Term.evaluateParams {σ : Type} (env : Environment) (arguments : Arguments) :
    List (String × Term σ) → Evaluation σ Arguments
  | [] => pure arguments
  | (name, param) :: rest => do
    let value ← Term.evaluate env param
    Term.evaluateParams env (Table.put arguments name value) rest

def Formula.test {σ : Type} (env : Environment) : Formula σ → Evaluation σ Truth
  | .constant truth => pure truth
  | .value operand => do liftExcept (Truth.ofJson (← Term.evaluate env operand))
  | .and operands => Formula.testAll env operands
  | .or operands => Formula.testAny env operands
  | .not operand => do
    let truth ← liftExcept (Truth.ofJson (← Term.evaluate env operand))
    pure (.ofBool (truth = .no))
  | .check check operand => do liftExcept (check.test (← Term.evaluate env operand))
  | .relation relation left right => do
    let left ← Term.evaluate env left
    if left.isNull then pure .no
    else
      let right ← Term.evaluate env right
      if right.isNull then pure .no
      else do pure (.ofBool (← liftExcept (relation.holds left right)))
  | .matchesPattern subject pattern => do
    match ← Term.evaluate env subject with
    | .null => pure .no
    | .string text => pure (.ofBool (pattern.occursIn text))
    | other => throw (.mismatch .text other.typeName)
  | .matchesTerm language subject pattern => do
    match ← Term.evaluate env subject with
    | .null => pure .no
    | .string text =>
      match ← Term.evaluate env pattern with
      | .null => pure .no
      | .string source =>
        match language.readWhole source with
        | .ok pattern => pure (.ofBool (pattern.occursIn text))
        | .error fault => throw (.badPattern fault)
      | other => throw (.mismatch .pattern other.typeName)
    | other => throw (.mismatch .text other.typeName)
  | .contains containment collection elements => do
    match ← Term.evaluate env collection with
    | .null => pure .no
    | .array items =>
      match ← Term.evaluate env elements with
      | .null => pure .no
      | elements => pure (.ofBool (containment.holds items elements.asItems))
    | other => throw (.mismatch .array other.typeName)

/-- The first operand that is not true settles it. -/
def Formula.testAll {σ : Type} (env : Environment) : List (Term σ) → Evaluation σ Truth
  | [] => pure .yes
  | operand :: rest => do
    let truth ← liftExcept (Truth.ofJson (← Term.evaluate env operand))
    if truth = .yes then Formula.testAll env rest else pure .no

/-- The first operand that is true settles it. -/
def Formula.testAny {σ : Type} (env : Environment) : List (Term σ) → Evaluation σ Truth
  | [] => pure .no
  | operand :: rest => do
    let truth ← liftExcept (Truth.ofJson (← Term.evaluate env operand))
    if truth = .yes then pure .yes else Formula.testAny env rest

end

end Rulebook
