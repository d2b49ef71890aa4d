import Rulebook.Proofs.BuiltIn
import Rulebook.Proofs.JsonText
import Rulebook.Proofs.KeptResults
import Rulebook.Proofs.Modes
import Rulebook.Proofs.Rulesets

/-!
# Caching function results

The cache holds nothing but what the registered functions return for the arguments that the keys
stand for. As long as the functions are deterministic, a result that is kept is the result of the
call, so that an engine answers every request as if it kept nothing, or kept something else.
-/
namespace Rulebook

variable {σ : Type} {functions : Table (Function σ)}

/-- The result depends on the arguments alone, whatever becomes of the state. -/
def Function.Deterministic (function : Function σ) : Prop :=
  ∀ arguments world world', (function.call arguments world).1 = (function.call arguments world').1

/-- All registered functions are deterministic. -/
def Functions.Deterministic (functions : Table (Function σ)) : Prop :=
  ∀ name function, Table.get? functions name = some function → function.Deterministic

/-- The term itself calls no other function than the one registered under the name it has. -/
def Term.Calls (functions : Table (Function σ)) : Term σ → Prop
  | .call name function _ => Table.get? functions name = some function
  | _ => True

def Ruleset.Calls (functions : Table (Function σ)) (ruleset : Ruleset σ) : Prop :=
  ∀ rule ∈ ruleset.rules, ∀ part ∈ rule.parts, part.Calls functions

/-- No operator brings functions of its own into the formulas that it makes. -/
def Vocabulary.Closed (words : Vocabulary σ) : Prop :=
  ∀ name rule operands formula, Table.get? words.operators name = some rule →
    rule.make operands = .ok formula →
    (∀ operand ∈ operands, ∀ part ∈ operand.parts, part.Calls words.functions) →
    ∀ part ∈ formula.parts, part.Calls words.functions

theorem Vocabulary.closed_of_builtIn {words : Vocabulary σ} (h : words.operators.BuiltIn) :
    words.Closed := by
  intro name rule operands formula hrule hmake hoperands
  obtain ⟨language, operator, hoperator⟩ := h name rule hrule
  have hmakes := Operator.makes_of_make (hoperator ▸ hmake)
  have hparts := hmakes.forall_parts hoperands trivial
  rw [Term.parts, List.forall_mem_cons] at hparts
  exact hparts.2

theorem Vocabulary.Closed.yields {words : Vocabulary σ} (h : words.Closed) (scope : Scope) :
    words.Yields scope fun part => part.Calls words.functions where
  constant := by
    intro place kind v t ht
    obtain ⟨shape, rfl⟩ := Scope.constant_eq ht
    exact List.forall_mem_singleton.mpr trivial
  list _ := trivial
  reference _ := trivial
  call _ hfunction := hfunction
  operator := by
    intro name rule operands formula hrule hmake hoperands
    rw [Term.parts, List.forall_mem_cons]
    exact ⟨trivial, h name rule operands formula hrule hmake hoperands⟩
  truth _ := trivial
  value _ := trivial

/-- Compiled rulesets call registered functions only. -/
theorem Compiler.calls_of_compileAll {compiler : Compiler σ} (h : compiler.toVocabulary.Closed)
    {now : Instant} {rules : List Rule} {ruleset : Ruleset σ}
    (hruleset : compiler.compileAll now rules = .ok ruleset) :
    ruleset.Calls compiler.functions :=
  forall_of_compileAll (fun _ _ _ hcompiled => forall_parts_of_compile hcompiled h.yields) hruleset

namespace Session

/-- Whenever the function under the name is called with the arguments of the key, it returns the
value. -/
def Returned (functions : Table (Function σ)) (name key : String) (value : Json) : Prop :=
  ∀ function, Table.get? functions name = some function →
    ∀ arguments : Arguments, arguments.key = key →
      ∀ world, (function.call arguments world).1 = .ok value

/-- All results that are kept are those of the registered functions. -/
def Truthful (functions : Table (Function σ)) (session : Session σ) : Prop :=
  session.cache.All (Returned functions)

variable {session : Session σ} {name : String} {function : Function σ}

/-- A call has the result of the function, whether it is kept or not. -/
theorem Truthful.call_result (h : session.Truthful functions)
    (hfunction : Table.get? functions name = some function) (arguments : Arguments) :
    (session.call name function arguments).1 = (function.call arguments session.world).1 := by
  rcases Session.call_result h name function arguments with ⟨value, hkept, hreturned⟩ | hdirect
  · rw [hkept, hreturned function hfunction arguments rfl session.world]
  · exact hdirect

theorem Truthful.call (h : session.Truthful functions)
    (hfunction : Table.get? functions name = some function) (hdet : function.Deterministic)
    (arguments : Arguments) : (session.call name function arguments).2.Truthful functions := by
  refine Session.call_all h fun world value hvalue => ?_
  intro function' hfunction' arguments' hkey world'
  obtain rfl : function = function' := Option.some.inj (hfunction.symm.trans hfunction')
  obtain rfl : arguments' = arguments := Arguments.key_inj hkey
  rw [hdet arguments' world' world, hvalue]

theorem Truthful.upkeep (h : session.Truthful functions) (change : FunctionCache.Upkeep) :
    Truthful functions { session with cache := session.cache.upkeep change } :=
  FunctionCache.All.upkeep h change

/-- Two sessions that may keep different results, none of them wrong. -/
def BothTruthful (functions : Table (Function σ)) (session other : Session σ) : Prop :=
  session.Truthful functions ∧ other.Truthful functions

end Session

/-- A rule that calls deterministic functions is evaluated alike, whatever is kept. -/
theorem Run.steady_of_calls {rule : CompiledRule σ}
    (hfunctions : Functions.Deterministic functions)
    (h : ∀ part ∈ rule.parts, part.Calls functions) :
    Run.Steady (Session.BothTruthful functions) rule := by
  refine fun env => CompiledRule.evaluate_agree fun part hpart => ?_
  have hcalls := h part hpart
  cases part with
  | call name function params =>
    rintro arguments s t ⟨hs, ht⟩
    have hdet := hfunctions name function hcalls
    refine ⟨?_, hs.call hcalls hdet arguments, ht.call hcalls hdet arguments⟩
    exact (hs.call_result hcalls arguments).trans
      ((hdet arguments s.world t.world).trans (ht.call_result hcalls arguments).symm)
  | reference r => rfl
  | constant _ _ | list _ | formula _ => trivial

namespace Engine

variable {engine : Engine σ}

/-- What an engine is asked for. Its source and the time may be others each time. -/
inductive Event (σ : Type)
  | execute (source : RuleSource) (now : Instant) (request : Request σ)
  | upkeep (change : FunctionCache.Upkeep)

def upkeep (engine : Engine σ) (change : FunctionCache.Upkeep) : Engine σ :=
  { engine with
    session := { engine.session with cache := engine.session.cache.upkeep change } }

/-- The reports and failures that an engine answers its requests with, one after the other. -/
def answers (engine : Engine σ) : List (Event σ) → List (Except Failure (Report σ))
  | [] => []
  | .execute source now request :: rest =>
    let (answer, engine) := engine.execute source now request
    answer :: engine.answers rest
  | .upkeep change :: rest => (engine.upkeep change).answers rest

/-- A ruleset that comes along with a request calls registered functions only. -/
def Event.Known (functions : Table (Function σ)) : Event σ → Prop
  | .execute _ _ request => ∀ ruleset ∈ request.carried, ruleset.Calls functions
  | .upkeep _ => True

/-- Whatever the engine compiles, and whatever it has compiled, calls registered functions only. -/
structure Registered (functions : Table (Function σ)) (engine : Engine σ) : Prop where
  compiled : ∀ number now rules ruleset,
    (engine.compilerFor number).compileAll now rules = .ok ruleset → ruleset.Calls functions
  kept : engine.rulesets.All (Ruleset.Calls functions)

theorem make_registered (settings : Settings) {words : Vocabulary σ} (h : words.Closed)
    (anonymous : Nat → Nat → String) (handler : FailureHandler) (world : σ) :
    (make settings words anonymous handler world).Registered words.functions where
  compiled := by
    intro number now rules ruleset hruleset
    exact Compiler.calls_of_compileAll h hruleset
  kept := RulesetCache.all_empty _ _

theorem Registered.rulesetFor (h : engine.Registered functions) {request : Request σ}
    (hcarried : ∀ ruleset ∈ request.carried, ruleset.Calls functions) (source : RuleSource)
    (now : Instant) :
    (∀ ruleset, (engine.rulesetFor source now request).1 = .ok ruleset →
        ruleset.Calls functions) ∧
      (engine.rulesetFor source now request).2.Registered functions := by
  unfold Engine.rulesetFor
  cases hrequest : request.carried with
  | some ruleset =>
    refine ⟨fun found hfound => ?_, h⟩
    cases hfound
    exact hcarried ruleset hrequest
  | none =>
    have hget := h.kept.get (h.compiled (2 * engine.rulesets.asked) now) source request.uri
    refine ⟨fun found hfound => ?_, h.compiled, hget.2⟩
    dsimp only [Engine.get] at hfound
    cases hloaded : (engine.rulesets.get source
        ((engine.compilerFor (2 * engine.rulesets.asked)).compileAll now) request.uri).1 with
    | error failure =>
      rw [hloaded] at hfound
      cases hfound
    | ok loaded =>
      rw [hloaded] at hfound
      cases hfound
      exact hget.1 loaded hloaded

/-- The engine with other results kept, and another policy of keeping them. -/
def keeping (engine : Engine σ) (policy : CachePolicy) (session : Session σ) : Engine σ :=
  { engine with settings := { engine.settings with functionCache := policy }, session }

theorem rulesetFor_keeping (policy : CachePolicy) (session : Session σ) (source : RuleSource)
    (now : Instant) (request : Request σ) :
    (engine.keeping policy session).rulesetFor source now request =
      ((engine.rulesetFor source now request).1,
        (engine.rulesetFor source now request).2.keeping policy session) := by
  unfold rulesetFor
  cases request.carried <;> rfl

/-- Two engines that differ in nothing but what they keep, and keep nothing that is wrong. -/
structure Twins (functions : Table (Function σ)) (engine other : Engine σ) : Prop where
  registered : engine.Registered functions
  truthful : engine.session.Truthful functions
  same : ∃ policy session, other = engine.keeping policy session ∧ session.Truthful functions

namespace Twins

variable {other : Engine σ}

theorem run (h : Twins functions engine other)
    (hfunctions : Functions.Deterministic functions)
    {ruleset : Ruleset σ} (hruleset : ruleset.Calls functions) (request : Request σ) :
    (engine.run ruleset request).1 = (other.run ruleset request).1 ∧
      Twins functions (engine.run ruleset request).2 (other.run ruleset request).2 := by
  obtain ⟨policy, session, rfl, hsession⟩ := h.same
  have hrules := fun rule hrule => Run.steady_of_calls hfunctions (hruleset rule hrule)
  obtain ⟨hresult, hafter, hafter'⟩ := Ruleset.run_agree hrules engine.mode request.facts
    (.start request.result request.stopped) engine.session session ⟨h.truthful, hsession⟩
  exact ⟨congrArg (fun result => result.map fun run => (⟨run, ruleset⟩ : Report σ)) hresult,
    ⟨h.registered.compiled, h.registered.kept⟩, hafter, ⟨policy, _, rfl, hafter'⟩⟩

theorem execute (h : Twins functions engine other)
    (hfunctions : Functions.Deterministic functions)
    {request : Request σ} (hcarried : ∀ ruleset ∈ request.carried, ruleset.Calls functions)
    (source : RuleSource) (now : Instant) :
    (engine.execute source now request).1 = (other.execute source now request).1 ∧
      Twins functions (engine.execute source now request).2
        (other.execute source now request).2 := by
  obtain ⟨policy, session, rfl, hsession⟩ := h.same
  obtain ⟨hcalls, hregistered⟩ := h.registered.rulesetFor hcarried source now
  have htwins : ∀ rulesets, Registered functions { engine with rulesets } →
      Twins functions { engine with rulesets }
        (Engine.keeping { engine with rulesets } policy session) :=
    fun _ hregistered => ⟨hregistered, h.truthful, policy, session, rfl, hsession⟩
  rw [execute_eq, execute_eq, rulesetFor_keeping]
  rcases engine.rulesetFor_cases source now request with
    ⟨failure, rulesets, hfound⟩ | ⟨ruleset, rulesets, hfound⟩
  · rw [hfound] at hregistered ⊢
    exact ⟨rfl, htwins rulesets hregistered⟩
  · rw [hfound] at hcalls hregistered ⊢
    exact (htwins rulesets hregistered).run hfunctions (hcalls ruleset rfl) request

theorem upkeep (h : Twins functions engine other) (change : FunctionCache.Upkeep) :
    Twins functions (engine.upkeep change) (other.upkeep change) := by
  obtain ⟨policy, session, rfl, hsession⟩ := h.same
  exact ⟨⟨h.registered.compiled, h.registered.kept⟩, h.truthful.upkeep change,
    policy, _, rfl, hsession.upkeep change⟩

theorem answers_eq (h : Twins functions engine other)
    (hfunctions : Functions.Deterministic functions)
    {events : List (Event σ)} (hevents : ∀ event ∈ events, event.Known functions) :
    engine.answers events = other.answers events := by
  induction events generalizing engine other with
  | nil => rfl
  | cons event rest ih =>
    rw [List.forall_mem_cons] at hevents
    cases event with
    | execute source now request =>
      obtain ⟨hanswer, htwins⟩ := h.execute hfunctions hevents.1 source now
      rw [answers, answers]
      dsimp only
      rw [hanswer, ih htwins hevents.2]
    | upkeep change =>
      rw [answers, answers]
      exact ih (h.upkeep change) hevents.2

end Twins

/-- The engine with the clock by which the lifetimes of its results end. -/
def timed (engine : Engine σ) (clock : Clock) : Engine σ :=
  { engine with
    session := { engine.session with cache := { engine.session.cache with clock } } }

/-- How results are kept makes no difference to any report or failure, as long as the functions are
deterministic. Neither does the time that passes. -/
theorem caching_invisible (settings : Settings) (words : Vocabulary σ)
    (anonymous : Nat → Nat → String) (handler : FailureHandler) (world : σ)
    (hfunctions : Functions.Deterministic words.functions)
    (hwords : words.Closed) {events : List (Event σ)}
    (hevents : ∀ event ∈ events, event.Known words.functions) (one two : CachePolicy)
    (clock clock' : Clock) :
    ((make { settings with functionCache := one } words anonymous handler world).timed
        clock).answers events =
      ((make { settings with functionCache := two } words anonymous handler world).timed
        clock').answers events := by
  have hnothing : ∀ (policy : CachePolicy) (clock : Clock),
      Session.Truthful words.functions ⟨{ FunctionCache.empty policy with clock }, world⟩ :=
    fun policy _ => FunctionCache.all_empty _ policy
  have hregistered := make_registered { settings with functionCache := one } hwords anonymous
    handler world
  have htwins : Twins words.functions
      ((make { settings with functionCache := one } words anonymous handler world).timed clock)
      ((make { settings with functionCache := two } words anonymous handler world).timed clock') :=
    ⟨⟨hregistered.compiled, hregistered.kept⟩, hnothing one clock, two, _, rfl,
      hnothing two clock'⟩
  exact htwins.answers_eq hfunctions hevents

/-- Counts its calls, though no result shows it. -/
def countingFunction : Function Nat :=
  ⟨.integer, fun arguments calls => (.ok (.ofNat arguments.length), calls + 1)⟩

def countingWords : Vocabulary Nat where
  operators := .standard
  functions := [("count", countingFunction)]
  actions := []
  schemas := []

/-- Replaces the result by what the function returns. -/
def countingRuleset : Ruleset Nat where
  rules := [{
    id := "count"
    formula := .constant .yes
    actions := [⟨"replace", ⟨fun _ arguments outcome =>
      (.ok (), { outcome with result := .object arguments })⟩,
      [("count", .call "count" countingFunction
        [("item", .reference ⟨.named "item", [], .any, "item"⟩)])]⟩]
    attributes := []
    priority := 0
    facts := [⟨"item", "Item"⟩] }]
  factNames := [("item", "Item")]

/-- An engine whose clock moves on by one nanosecond each time it is read. -/
def countingEngine (policy : CachePolicy) : Engine Nat :=
  timed (.make { Settings.standard with functionCache := policy } countingWords (fun _ _ => "") .skip
    0) ⟨id, 0⟩

def countingRequest : Request Nat where
  uri := ""
  facts := [⟨"Item", .ofNat 1⟩, ⟨"Item", .ofNat 1⟩]
  result := .null
  stopped := false
  carried := some countingRuleset

def countingEvents : List (Event Nat) :=
  [.execute (fun _ => .ok none) ⟨0, 0⟩ countingRequest, .upkeep .sweep,
    .execute (fun _ => .ok none) ⟨0, 0⟩ countingRequest]

theorem counting_caching_invisible :
    (countingEngine .standard).answers countingEvents =
        (countingEngine ⟨true, 300, []⟩).answers countingEvents ∧
      ((countingEngine .standard).execute (fun _ => .ok none) ⟨0, 0⟩
        countingRequest).2.session.world = 2 ∧
      ((countingEngine ⟨true, 300, []⟩).execute (fun _ => .ok none) ⟨0, 0⟩
        countingRequest).2.session.world = 1 := by
  have hfunctions : Functions.Deterministic countingWords.functions := by
    intro name function hfunction
    cases List.mem_singleton.mp (Table.mem_of_get? hfunction)
    exact fun _ _ _ => rfl
  have hwords : countingWords.Closed := Vocabulary.closed_of_builtIn Operators.standard_builtIn
  have hruleset : countingRuleset.Calls countingWords.functions := by
    refine List.forall_mem_singleton.mpr ?_
    simp [CompiledRule.parts, Term.parts, Formula.parts, Term.partsOfParams, Term.Calls]
    rfl
  have hevents : ∀ event ∈ countingEvents, event.Known countingWords.functions := by
    simp [countingEvents, countingRequest, Event.Known, hruleset]
  exact ⟨caching_invisible .standard countingWords _ .skip 0 hfunctions hwords hevents _ _ _ _, rfl,
    by decide +kernel⟩

end Engine
end Rulebook
