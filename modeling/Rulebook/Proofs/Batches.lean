import Rulebook.Proofs.IdleRules

/-!
# Rules of one batch

A batch evaluates all rules of a tuple on the outcome that the tuple started with. All that one rule
may leave for the next is kept function results, and with deterministic functions these show
nowhere. So each rule is selected, and bound, as if it were the only one, and those that are
selected fire in the order of the ruleset.
-/
namespace Rulebook

variable {σ : Type} {functions : Table (Function σ)} {rule : CompiledRule σ}
  {rules : List (CompiledRule σ)} {tuple : Tuple} {seen : Outcome} {session other : Session σ}

/-- The actions that the rule is bound to on the tuple when it is the only one, if it is selected
at all. -/
def CompiledRule.selectedAlone (rule : CompiledRule σ) (tuple : Tuple) (seen : Outcome)
    (session : Session σ) : Option (List BoundAction) :=
  match ((Run.select .skip tuple [rule] ⟨seen, [], []⟩).run session).1 with
  | .ok ([(_, actions)], _) => some actions
  | _ => none

theorem CompiledRule.selectedAlone_of_applies (happlies : rule.appliesTo tuple = true) :
    rule.selectedAlone tuple seen session =
      match ((rule.evaluate (rule.environment tuple seen)).run session).1 with
      | .ok bound => bound
      | .error _ => none := by
  unfold selectedAlone
  rw [Run.select_of_applies happlies]
  dsimp only
  rcases (rule.evaluate (rule.environment tuple seen)).run session
    with ⟨failure | _ | actions, after⟩ <;> rfl

theorem CompiledRule.selectedAlone_of_not_applies (h : ¬ rule.appliesTo tuple = true) :
    rule.selectedAlone tuple seen session = none := by
  unfold selectedAlone
  rw [Run.select, if_neg h]
  rfl

namespace Run

/-- The rules that are selected alone, with what they are bound to. -/
def eachAlone (rules : List (CompiledRule σ)) (tuple : Tuple) (seen : Outcome)
    (session : Session σ) : List (String × List BoundAction) :=
  rules.filterMap fun rule =>
    (rule.selectedAlone tuple seen session).map fun actions => (rule.id, actions)

/-- From sessions that keep nothing wrong, rules are selected together as they are alone. -/
theorem select_eq_eachAlone
    (hrules : ∀ rule ∈ rules, Steady (Session.BothTruthful functions) rule) (run : Run)
    (hsessions : Session.BothTruthful functions session other) :
    ∃ after last, (select .skip tuple rules run).run session =
      (.ok (eachAlone rules tuple run.outcome other, after), last) := by
  induction rules generalizing run session with
  | nil => exact ⟨run, session, rfl⟩
  | cons rule rest ih =>
    rw [List.forall_mem_cons] at hrules
    unfold eachAlone at ih ⊢
    by_cases happlies : rule.appliesTo tuple = true
    · obtain ⟨hresult, hafter⟩ := hrules.1 (rule.environment tuple run.outcome) session other hsessions
      have halone : rule.selectedAlone tuple run.outcome other = _ :=
        CompiledRule.selectedAlone_of_applies happlies
      -- The rules after it start from a session that it has changed, but keeps nothing wrong.
      have hrest : Session.BothTruthful functions
          ((rule.evaluate (rule.environment tuple run.outcome)).run session).2 other :=
        ⟨hafter.1, hsessions.2⟩
      rw [← hresult] at halone
      rw [select_of_applies happlies]
      rcases heval : (rule.evaluate (rule.environment tuple run.outcome)).run session
        with ⟨failure | _ | actions, between⟩
      · rw [heval] at halone hrest
        rw [List.filterMap_cons_none (by rw [halone]; rfl)]
        exact ih hrules.2 { run with skipped := run.skipped ++ [(rule.id, failure)] } hrest
      · rw [heval] at halone hrest
        rw [List.filterMap_cons_none (by rw [halone]; rfl)]
        exact ih hrules.2 run hrest
      · rw [heval] at halone hrest
        obtain ⟨after, last, hselect⟩ := ih hrules.2 run hrest
        refine ⟨after, last, ?_⟩
        rw [List.filterMap_cons_some (by rw [halone]; rfl)]
        dsimp only
        rw [hselect]
    · rw [List.filterMap_cons_none (by rw [CompiledRule.selectedAlone_of_not_applies happlies]; rfl),
        select, if_neg happlies]
      exact ih hrules.2 run hsessions

/-- A batch fires what it has selected, rule by rule. -/
theorem fireBatched_of_select {run selected : Run} {matched : List (String × List BoundAction)}
    {last : Session σ}
    (h : (select .skip tuple rules run).run session = (.ok (matched, selected), last))
    (index : Nat) :
    ∃ after, (fireBatched .skip index tuple rules run).run session = (.ok after, last) ∧
      run.Follows (matched.map fun rule => ⟨rule.1, index, rule.2⟩) after := by
  obtain ⟨after, hafter, hfollows⟩ := Attempt.fireAll_follows index matched selected
  refine ⟨after, ?_, (Follows.none (select_same h)).append hfollows⟩
  rw [fireBatched, Evaluation.run_bind_ok h]
  dsimp only
  rw [Evaluation.run_lift, hafter]

end Run

namespace Engine

variable {engine other : Engine σ} {ruleset : Ruleset σ}

/-- Whatever has been kept before, a batch that skips failures selects and binds each rule as it
does when the rule is the only one, and attempts the selected rules in the order of the ruleset. -/
theorem batch_isolates {words : Vocabulary σ}
    (hfunctions : Functions.Deterministic words.functions) (hwords : words.Closed)
    (hengine : engine.Reached words) (hother : other.Reached words)
    (hruleset : ruleset.Calls words.functions) (index : Nat) (tuple : Tuple) (start : Run) :
    ∃ selected after last,
      (Run.select .skip tuple ruleset.rules start).run engine.session =
        (.ok (Run.eachAlone ruleset.rules tuple start.outcome other.session, selected), last) ∧
      (Run.fireBatched .skip index tuple ruleset.rules start).run engine.session =
        (.ok after, last) ∧
      start.Follows ((Run.eachAlone ruleset.rules tuple start.outcome other.session).map
        fun rule => ⟨rule.1, index, rule.2⟩) after := by
  have hsteady := fun rule hrule => Run.steady_of_calls hfunctions (hruleset rule hrule)
  obtain ⟨selected, last, hselect⟩ := Run.select_eq_eachAlone hsteady start
    ⟨(hengine.sound hfunctions hwords).truthful, (hother.sound hfunctions hwords).truthful⟩
  obtain ⟨after, hafter, hfollows⟩ := Run.fireBatched_of_select hselect index
  exact ⟨selected, after, last, hselect, hafter, hfollows⟩

theorem countingWords_deterministic : Functions.Deterministic countingWords.functions := by
  intro name function hfunction
  cases List.mem_singleton.mp (Table.mem_of_get? hfunction)
  exact fun _ _ _ => rfl

/-- A rule that misuses the function, and one that uses it. -/
def misusingRuleset : Ruleset Nat :=
  ⟨misusingRule :: countingRuleset.rules, countingRuleset.factNames⟩

theorem misusingRuleset_calls : misusingRuleset.Calls countingWords.functions := by
  refine List.forall_mem_cons.mpr ⟨?_, List.forall_mem_singleton.mpr ?_⟩
  all_goals
    simp [misusingRule, CompiledRule.parts, Term.parts, Formula.parts, Term.partsOfParams,
      Term.Calls]
    rfl

/-- An engine that has kept a result before, and has called the function once. -/
def usedEngine : Engine Nat :=
  ((countingEngine ⟨true, 300, []⟩).execute (fun _ => .ok none) ⟨0, 0⟩ countingRequest).2

theorem misusing_batch_isolates :
    (∃ selected after last,
      (Run.select .skip [("item", .ofNat 1)] misusingRuleset.rules (.start .null false)).run
          usedEngine.session =
        (.ok (Run.eachAlone misusingRuleset.rules [("item", .ofNat 1)] ⟨.null, false⟩
          (countingEngine .standard).session, selected), last) ∧
      (Run.fireBatched .skip 7 [("item", .ofNat 1)] misusingRuleset.rules
        (.start .null false)).run usedEngine.session = (.ok after, last) ∧
      (Run.start .null false).Follows
        ((Run.eachAlone misusingRuleset.rules [("item", .ofNat 1)] ⟨.null, false⟩
          (countingEngine .standard).session).map fun rule => ⟨rule.1, 7, rule.2⟩) after) ∧
    usedEngine.session.cache.size = 1 ∧
    (Run.eachAlone misusingRuleset.rules [("item", .ofNat 1)] ⟨.null, false⟩
      (countingEngine .standard).session).map Prod.fst = ["count"] := by
  have hcarried : ∀ ruleset ∈ countingRequest.carried, ruleset.Calls countingWords.functions := by
    rintro ruleset ⟨⟩
    exact fun rule hrule => misusingRuleset_calls rule (List.mem_cons_of_mem _ hrule)
  have hused : usedEngine.Reached countingWords := .executed _ _ (.made ..) hcarried
  exact ⟨batch_isolates countingWords_deterministic
    (Vocabulary.closed_of_builtIn Operators.standard_builtIn) hused (.made ..)
    misusingRuleset_calls 7 _ _, by decide +kernel, rfl⟩

end Engine
end Rulebook
