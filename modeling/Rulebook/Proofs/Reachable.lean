import Rulebook.Proofs.Caching

/-!
# Engines in use

An engine is made with its words, and is then asked for runs, compilations and upkeep in any order.
In all its states the rulesets that it hands out call registered functions only, and the results
that it keeps are those of the functions.
-/
namespace Rulebook

variable {σ : Type}

namespace Engine

variable {engine : Engine σ} {words : Vocabulary σ}

/-- The states of an engine that is made with the words. A ruleset that comes along with a request
calls registered functions only. -/
inductive Reached (words : Vocabulary σ) : Engine σ → Prop
  | made (settings : Settings) (anonymous : Nat → Nat → String) (handler : FailureHandler)
    (world : σ) (clock : Clock) :
    Reached words ((make settings words anonymous handler world).timed clock)
  | executed {engine : Engine σ} (source : RuleSource) (now : Instant) {request : Request σ} :
    Reached words engine → (∀ ruleset ∈ request.carried, ruleset.Calls words.functions) →
    Reached words (engine.execute source now request).2
  | compiled {engine : Engine σ} (now : Instant) (rules : List Rule) :
    Reached words engine → Reached words (engine.compile now rules).2
  | upkeep {engine : Engine σ} (change : FunctionCache.Upkeep) :
    Reached words engine → Reached words (engine.upkeep change)
  | evicted {engine : Engine σ} (uri : String) :
    Reached words engine →
    Reached words { engine with rulesets := engine.rulesets.evict uri }
  | cleared {engine : Engine σ} :
    Reached words engine → Reached words { engine with rulesets := engine.rulesets.clear }

/-- The engine keeps nothing that is wrong. -/
structure Sound (functions : Table (Function σ)) (engine : Engine σ) : Prop where
  registered : engine.Registered functions
  truthful : engine.session.Truthful functions

variable {functions : Table (Function σ)}

theorem Sound.execute (h : engine.Sound functions) (hfunctions : Functions.Deterministic functions)
    {request : Request σ} (hcarried : ∀ ruleset ∈ request.carried, ruleset.Calls functions)
    (source : RuleSource) (now : Instant) :
    (engine.execute source now request).2.Sound functions := by
  have htwin : Twins functions engine engine :=
    ⟨h.registered, h.truthful, engine.settings.functionCache, engine.session, rfl, h.truthful⟩
  obtain ⟨-, hafter⟩ := htwin.execute hfunctions hcarried source now
  exact ⟨hafter.registered, hafter.truthful⟩

theorem Reached.sound (h : engine.Reached words)
    (hfunctions : Functions.Deterministic words.functions) (hwords : words.Closed) :
    engine.Sound words.functions := by
  induction h with
  | made settings anonymous handler world clock =>
    have hregistered := make_registered settings hwords anonymous handler world
    exact ⟨⟨hregistered.compiled, hregistered.kept⟩,
      FunctionCache.all_empty _ settings.functionCache⟩
  | executed source now _ hcarried ih => exact ih.execute hfunctions hcarried source now
  | compiled now rules _ ih => exact ⟨⟨ih.registered.compiled, ih.registered.kept⟩, ih.truthful⟩
  | upkeep change _ ih =>
    exact ⟨⟨ih.registered.compiled, ih.registered.kept⟩, ih.truthful.upkeep change⟩
  | evicted uri _ ih =>
    exact ⟨⟨ih.registered.compiled, ih.registered.kept.evict uri⟩, ih.truthful⟩
  | cleared _ ih => exact ⟨⟨ih.registered.compiled, RulesetCache.all_clear _ _⟩, ih.truthful⟩

end Engine
end Rulebook
