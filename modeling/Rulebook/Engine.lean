import Rulebook.Compiler
import Rulebook.Run
import Rulebook.RulesetCache
import Rulebook.Settings

/-!
# Engines

An engine compiles rules, keeps rulesets and function results, and runs rulesets on facts. It counts
its compilations, so that rules without a name get another identifier each time.
-/
namespace Rulebook

structure Engine (σ : Type) where
  settings : Settings
  compiler : Compiler σ
  handler : FailureHandler
  rulesets : RulesetCache σ
  session : Session σ
  /-- What a rule without a name is called, by the compilation and its place in the ruleset. -/
  anonymous : Nat → Nat → String
  /-- How many rulesets have been compiled on request. -/
  compilations : Nat

/-- What a run is asked to do. The ruleset may come along instead of being looked up. -/
structure Request (σ : Type) where
  uri : String
  facts : List Fact
  result : Json
  stopped : Bool
  carried : Option (Ruleset σ)

/-- A finished run and the ruleset that it ran. -/
structure Report (σ : Type) where
  run : Run
  ruleset : Ruleset σ

namespace Engine

variable {σ : Type}

/-- An engine that keeps nothing yet. -/
def make (settings : Settings) (words : Vocabulary σ) (anonymous : Nat → Nat → String)
    (handler : FailureHandler) (world : σ) : Engine σ where
  settings := settings
  compiler :=
    { words with
      strict := settings.strict
      checksDates := settings.checksDates
      anonymous := anonymous 0 }
  handler := handler
  rulesets := .empty settings.refreshSeconds
  session := ⟨.empty settings.functionCache, world⟩
  anonymous := anonymous
  compilations := 0

/-- No engine is made without a source of rules. -/
def requireSource {α : Type} (source : Option α) : Except Failure α :=
  match source with
  | some source => .ok source
  | none => .error (.store .missing)

def mode (engine : Engine σ) : RunMode :=
  ⟨engine.settings.sequential, engine.settings.crossProduct, engine.handler⟩

/-- The compiler for the compilation with a number. -/
def compilerFor (engine : Engine σ) (number : Nat) : Compiler σ :=
  { engine.compiler with anonymous := engine.anonymous number }

/-- Compilations on request have odd numbers, those of loads even ones. -/
def compile (engine : Engine σ) (now : Instant) (rules : List Rule) :
    Except Failure (Ruleset σ) × Engine σ :=
  ((engine.compilerFor (2 * engine.compilations + 1)).compileAll now rules,
    { engine with compilations := engine.compilations + 1 })

def get (engine : Engine σ) (source : RuleSource) (now : Instant) (uri : String) :
    Except Failure (LoadedRuleset σ) × Engine σ :=
  let compiler := engine.compilerFor (2 * engine.rulesets.asked)
  let (found, rulesets) := engine.rulesets.get source (compiler.compileAll now) uri
  (found, { engine with rulesets })

def run (engine : Engine σ) (ruleset : Ruleset σ) (request : Request σ) :
    Except Failure (Report σ) × Engine σ :=
  let evaluation := ruleset.run engine.mode request.facts (.start request.result request.stopped)
  let (result, session) := ExceptT.run evaluation engine.session
  (result.map fun run => ⟨run, ruleset⟩, { engine with session })

def execute (engine : Engine σ) (source : RuleSource) (now : Instant) (request : Request σ) :
    Except Failure (Report σ) × Engine σ :=
  match request.carried with
  | some ruleset => engine.run ruleset request
  | none =>
    match engine.get source now request.uri with
    | (.ok loaded, engine) => engine.run loaded.ruleset request
    | (.error failure, engine) => (.error failure, engine)

end Engine
end Rulebook
