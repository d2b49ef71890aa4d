import Rulebook.Proofs.Modes

/-!
# The order of the facts

Facts reach a run through their groups only, and a group has the facts of one declared type. So
facts of other types may come and go, and facts of different types may change places.
-/
namespace Rulebook

variable {σ : Type}

/-- Of each declared type there are the same facts, in the same order. -/
def FactNames.SameFacts (names : FactNames) (facts facts' : List Fact) : Prop :=
  ∀ entry ∈ names,
    (facts.filter fun fact => fact.typeName = entry.2) =
      facts'.filter fun fact => fact.typeName = entry.2

variable {names : FactNames} {facts facts' : List Fact}

theorem FactNames.SameFacts.groups_eq (h : names.SameFacts facts facts') :
    FactGroup.ofFacts facts names = FactGroup.ofFacts facts' names := by
  unfold FactGroup.ofFacts
  congr 1
  refine List.map_congr_left fun entry hentry => ?_
  rw [h entry hentry]

theorem Ruleset.run_congr {ruleset : Ruleset σ} (h : ruleset.factNames.SameFacts facts facts')
    (mode : RunMode) (start : Run) :
    ruleset.run mode facts start = ruleset.run mode facts' start := by
  unfold Ruleset.run
  rw [h.groups_eq]

namespace Engine

variable {engine : Engine σ} {source : RuleSource} {now : Instant} {request : Request σ}

/-- Facts that are the same for each declared type are run alike, whatever becomes of failures and
wherever the run starts, and are given the same answer. -/
theorem facts_by_type
    (h : ∀ ruleset, (engine.rulesetFor source now request).1 = .ok ruleset →
      ruleset.factNames.SameFacts request.facts facts') :
    (∀ ruleset, (engine.rulesetFor source now request).1 = .ok ruleset →
      ∀ (mode : RunMode) (start : Run) (session : Session σ),
        (ruleset.run mode request.facts start).run session =
          (ruleset.run mode facts' start).run session) ∧
    engine.execute source now request =
      engine.execute source now { request with facts := facts' } := by
  refine ⟨fun ruleset hruleset mode start session => ?_, ?_⟩
  · rw [Ruleset.run_congr (h ruleset hruleset)]
  · have hrulesetFor : engine.rulesetFor source now { request with facts := facts' } =
        engine.rulesetFor source now request := rfl
    rw [execute_eq, execute_eq, hrulesetFor]
    rcases hfound : engine.rulesetFor source now request with ⟨failure | ruleset, found⟩
    · rfl
    · have hruleset : (engine.rulesetFor source now request).1 = .ok ruleset := by rw [hfound]
      dsimp only
      unfold Engine.run
      rw [Ruleset.run_congr (h ruleset hruleset)]

/-- Collects each item with each bin. -/
def pairing : Ruleset Unit where
  rules := [{
    id := "pair"
    formula := .constant .yes
    actions := [⟨"collect", ⟨fun _ arguments outcome =>
        (.ok (), { outcome with result := .array [.object arguments, outcome.result] })⟩,
      [("item", .reference ⟨.named "item", [], .any, "item"⟩),
        ("bin", .reference ⟨.named "bin", [], .any, "bin"⟩)]⟩]
    attributes := []
    priority := 0
    facts := [⟨"item", "Item"⟩, ⟨"bin", "Bin"⟩] }]
  factNames := [("item", "Item"), ("bin", "Bin")]

def pairingEngine : Engine Unit :=
  .make { Settings.standard with crossProduct := true } ⟨.standard, [], [], []⟩ (fun _ _ => "")
    .propagate ()

def pairingRequest : Request Unit where
  uri := ""
  facts := [⟨"Item", .ofNat 1⟩, ⟨"Bin", .ofNat 3⟩, ⟨"Item", .ofNat 2⟩]
  result := .null
  stopped := false
  carried := some pairing

/-- The facts of the request in another order, with others between them. -/
def pairingFacts : List Fact :=
  [⟨"Shelf", .ofNat 0⟩, ⟨"Item", .ofNat 1⟩, ⟨"Item", .ofNat 2⟩, ⟨"Shelf", .ofNat 5⟩,
    ⟨"Bin", .ofNat 3⟩]

theorem pairing_facts_by_type :
    pairing.factNames.SameFacts pairingRequest.facts pairingFacts ∧
    pairingEngine.execute (fun _ => .ok none) ⟨0, 0⟩ pairingRequest =
      pairingEngine.execute (fun _ => .ok none) ⟨0, 0⟩
        { pairingRequest with facts := pairingFacts } ∧
    (pairingEngine.effect (fun _ => .ok none) ⟨0, 0⟩ pairingRequest).map Prod.snd =
      .ok [⟨"pair", 0⟩, ⟨"pair", 1⟩] := by
  have hsame : pairing.factNames.SameFacts pairingRequest.facts pairingFacts := by
    simp [FactNames.SameFacts, pairing, pairingRequest, pairingFacts]
  refine ⟨hsame, (facts_by_type fun ruleset hruleset => ?_).2, rfl⟩
  cases hruleset
  exact hsame

end Engine
end Rulebook
