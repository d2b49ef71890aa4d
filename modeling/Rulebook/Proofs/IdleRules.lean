import Rulebook.Proofs.Attempts
import Rulebook.Proofs.Generation
import Rulebook.Proofs.Reachable

/-!
# Rules that do nothing

A rule that does not apply, does not hold or cannot be evaluated makes no attempt. All that it may
leave behind is what its calls have put into the session or swept out of it, and with deterministic
functions no later evaluation shows that. So a run that skips failures does the same without the
rule.
-/
namespace Rulebook

variable {σ : Type} {functions : Table (Function σ)} {rule : CompiledRule σ}
  {rules before rest : List (CompiledRule σ)} {sequential : Bool} {index : Nat} {tuple : Tuple}
  {tuples : List Tuple} {run : Run} {session other : Session σ}

/-- The rule does not apply to the tuple, does not hold on it, or fails while it is tested or its
arguments are evaluated. -/
def CompiledRule.Abstains (rule : CompiledRule σ) (tuple : Tuple) (seen : Outcome)
    (session : Session σ) : Prop :=
  rule.appliesTo tuple = false ∨
    ((rule.evaluate (rule.environment tuple seen)).run session).1 = .ok none ∨
    ∃ failure, ((rule.evaluate (rule.environment tuple seen)).run session).1 = .error failure

/-- What a rule sees after some attempts on the same tuple. -/
def Attempt.shown (sequential : Bool) (attempts : List Attempt) (outcome : Outcome) : Outcome :=
  if sequential then replay attempts outcome else outcome

theorem Attempt.shown_cons (sequential : Bool) (attempt : Attempt) (attempts : List Attempt)
    (outcome : Outcome) :
    shown sequential (attempt :: attempts) outcome =
      shown sequential attempts (if sequential then (attempt.run outcome).2 else outcome) := by
  cases sequential <;> rfl

namespace Run

/-- The run when the rules before it have had their turn on the tuple: they have fired in sequential
mode, and have only been selected in batched mode. -/
def turn (sequential : Bool) (handler : FailureHandler) (index : Nat) (tuple : Tuple)
    (before : List (CompiledRule σ)) (run : Run) : Evaluation σ Run :=
  if sequential then fireSequential handler index tuple before run
  else do
    let (_, run) ← select handler tuple before run
    pure run

/-- When its turn on the tuple comes, the rule abstains. -/
def Idle (sequential : Bool) (index : Nat) (tuple : Tuple) (before : List (CompiledRule σ))
    (rule : CompiledRule σ) (run : Run) (session : Session σ) : Prop :=
  ∃ reached session', (turn sequential .skip index tuple before run).run session =
    (.ok reached, session') ∧ rule.Abstains tuple reached.outcome session'

/-- The rule is idle on all tuples that the run comes to, from the tuple with the index on. -/
inductive IdleThroughout (sequential : Bool) (before : List (CompiledRule σ))
    (rule : CompiledRule σ) (rest : List (CompiledRule σ)) :
    Nat → List Tuple → Run → Session σ → Prop
  | ended {index : Nat} {run : Run} {session : Session σ} :
    IdleThroughout sequential before rule rest index [] run session
  | stopped {index : Nat} {tuple : Tuple} {tuples : List Tuple} {run : Run} {session : Session σ} :
    run.outcome.stopped = true →
    IdleThroughout sequential before rule rest index (tuple :: tuples) run session
  | next {index : Nat} {tuple : Tuple} {tuples : List Tuple} {run after : Run}
    {session last : Session σ} :
    Idle sequential index tuple before rule run session →
    (onTuple sequential .skip index tuple (before ++ rule :: rest) run).run session =
      (.ok after, last) →
    IdleThroughout sequential before rule rest (index + 1) tuples after last →
    IdleThroughout sequential before rule rest index (tuple :: tuples) run session

/-- The turn of a rule comes after the attempts of the rules before it. -/
theorem turn_follows (sequential : Bool) (index : Nat) (tuple : Tuple)
    (before : List (CompiledRule σ)) (run : Run) (session : Session σ) :
    ∃ attempts after last,
      (Attempt.onTuple sequential index tuple before run.outcome).run session =
        (.ok attempts, last) ∧
      (turn sequential .skip index tuple before run).run session = (.ok after, last) ∧
      after.outcome = Attempt.shown sequential attempts run.outcome := by
  cases sequential with
  | true =>
    obtain ⟨attempts, after, last, hattempts, hrun, hfollows⟩ :=
      Attempt.fireSequential_follows run session
    exact ⟨attempts, after, last, hattempts, hrun, hfollows.outcome⟩
  | false =>
    obtain ⟨matched, after, last, hattempts, hselect⟩ :=
      Attempt.select_attempts index tuple before run session
    refine ⟨_, after, last, hattempts, ?_, (select_same hselect).1.symm⟩
    rw [turn, if_neg Bool.false_ne_true, Evaluation.run_bind_ok hselect]
    rfl

end Run

namespace Attempt

variable {seen : Outcome} {attempts others : List Attempt} {between last : Session σ}

theorem onTuple_agree {S : Session σ → Session σ → Prop}
    (hrules : ∀ rule ∈ rules, Run.Steady S rule) (sequential : Bool) (index : Nat) (tuple : Tuple)
    (seen : Outcome) :
    Evaluation.Agree S (onTuple sequential index tuple rules seen)
      (onTuple sequential index tuple rules seen) := by
  induction rules generalizing seen with
  | nil => exact Evaluation.Agree.pure []
  | cons rule rest ih =>
    rw [List.forall_mem_cons] at hrules
    rw [onTuple]
    split
    · refine (hrules.1 _).attempt.bind fun result => ?_
      split
      · exact (ih hrules.2 _).bind fun others => Evaluation.Agree.pure _
      · exact ih hrules.2 seen
    · exact ih hrules.2 seen

/-- Attempts are not skipped: what fails makes none. -/
theorem onTuple_ok (sequential : Bool) (index : Nat) (tuple : Tuple)
    (rules : List (CompiledRule σ)) (seen : Outcome) (session : Session σ) :
    ∃ attempts last,
      (onTuple sequential index tuple rules seen).run session = (.ok attempts, last) := by
  obtain ⟨attempts, -, last, hattempts, -⟩ :=
    onTuple_follows sequential index tuple rules ⟨seen, [], []⟩ session
  exact ⟨attempts, last, hattempts⟩

/-- From related sessions steady rules make the same attempts. -/
theorem onTuple_same {S : Session σ → Session σ → Prop}
    (hrules : ∀ rule ∈ rules, Run.Steady S rule) (sequential : Bool) (index : Nat) (tuple : Tuple)
    (seen : Outcome) (hsessions : S session other) :
    ∃ attempts after after',
      (onTuple sequential index tuple rules seen).run session = (.ok attempts, after) ∧
      (onTuple sequential index tuple rules seen).run other = (.ok attempts, after') ∧
      S after after' := by
  obtain ⟨attempts, after, hrun⟩ := onTuple_ok sequential index tuple rules seen session
  obtain ⟨attempts', after', hrun'⟩ := onTuple_ok sequential index tuple rules seen other
  have hagree := onTuple_agree hrules sequential index tuple seen session other hsessions
  rw [hrun, hrun'] at hagree
  obtain ⟨hresult, hafter⟩ := hagree
  cases hresult
  exact ⟨attempts, after, after', hrun, hrun', hafter⟩

/-- Later rules make their attempts after those of the rules before them. -/
theorem onTuple_append
    (hbefore : (onTuple sequential index tuple before seen).run session = (.ok attempts, between))
    (hrest : (onTuple sequential index tuple rest (shown sequential attempts seen)).run between =
      (.ok others, last)) :
    (onTuple sequential index tuple (before ++ rest) seen).run session =
      (.ok (attempts ++ others), last) := by
  induction before generalizing seen session attempts with
  | nil =>
    cases hbefore
    rw [shown, replay, ite_self] at hrest
    exact hrest
  | cons rule before ih =>
    by_cases happlies : rule.appliesTo tuple = true
    · rw [onTuple_of_applies happlies] at hbefore
      rw [List.cons_append, onTuple_of_applies happlies]
      rcases heval : (rule.evaluate (rule.environment tuple seen)).run session
        with ⟨failure | _ | actions, after⟩
      · rw [heval] at hbefore
        exact ih hbefore hrest
      · rw [heval] at hbefore
        exact ih hbefore hrest
      · rw [heval] at hbefore
        dsimp only at hbefore ⊢
        split at hbefore
        · next later _ hlater =>
          cases hbefore
          rw [shown_cons] at hrest
          rw [ih hlater hrest]
          rfl
        · cases hbefore
    · rw [onTuple, if_neg happlies] at hbefore
      rw [List.cons_append, onTuple, if_neg happlies]
      exact ih hbefore hrest

/-- A rule that abstains makes no attempt, and leaves no more than a session with other results in
it, which are not wrong. -/
theorem onTuple_of_abstains (hrule : Run.Steady (Session.BothTruthful functions) rule)
    (hsession : session.Truthful functions) (sequential : Bool) (index : Nat)
    (rest : List (CompiledRule σ)) (h : rule.Abstains tuple seen session) :
    ∃ after, after.Truthful functions ∧
      (onTuple sequential index tuple (rule :: rest) seen).run session =
        (onTuple sequential index tuple rest seen).run after := by
  by_cases happlies : rule.appliesTo tuple = true
  · have hafter := (hrule (rule.environment tuple seen) session session ⟨hsession, hsession⟩).2.1
    refine ⟨_, hafter, ?_⟩
    have hresult := h.resolve_left (ne_false_of_eq_true happlies)
    rw [onTuple_of_applies happlies]
    rcases heval : (rule.evaluate (rule.environment tuple seen)).run session
      with ⟨failure | _ | actions, after⟩
    · rfl
    · rfl
    · rw [heval] at hresult
      obtain hnone | ⟨_, hfailure⟩ := hresult
      · cases hnone
      · cases hfailure
  · refine ⟨session, hsession, ?_⟩
    rw [onTuple, if_neg happlies]

/-- From sessions that keep nothing wrong the same attempts are made with the idle rule as without
it. -/
theorem onTuple_without
    (hrules : ∀ other ∈ before ++ rule :: rest, Run.Steady (Session.BothTruthful functions) other)
    (h : Run.Idle sequential index tuple before rule run session)
    (hsessions : Session.BothTruthful functions session other) :
    ∃ attempts after after',
      (onTuple sequential index tuple (before ++ rule :: rest) run.outcome).run session =
        (.ok attempts, after) ∧
      (onTuple sequential index tuple (before ++ rest) run.outcome).run other =
        (.ok attempts, after') ∧
      Session.BothTruthful functions after after' := by
  rw [List.forall_mem_append, List.forall_mem_cons] at hrules
  obtain ⟨hbefore, hrule, hrest⟩ := hrules
  obtain ⟨first, between, between', hfirst, hfirst', hbetween⟩ :=
    onTuple_same hbefore sequential index tuple run.outcome hsessions
  obtain ⟨reached, session', hturn, habstains⟩ := h
  obtain ⟨attempts, after, last, hattempts, hturn', houtcome⟩ :=
    Run.turn_follows sequential index tuple before run session
  cases hturn.symm.trans hturn'
  cases hattempts.symm.trans hfirst
  rw [houtcome] at habstains
  -- Evaluating the rule moves the first session only; the rules after it do not notice.
  obtain ⟨after, htruthful, hskip⟩ :=
    onTuple_of_abstains hrule hbetween.1 sequential index rest habstains
  obtain ⟨others, last, last', hothers, hothers', hlast⟩ :=
    onTuple_same hrest sequential index tuple (shown sequential first run.outcome)
      (⟨htruthful, hbetween.2⟩ : Session.BothTruthful functions after between')
  exact ⟨first ++ others, last, last', onTuple_append hfirst (hskip.trans hothers),
    onTuple_append hfirst' hothers', hlast⟩

end Attempt

namespace Run

theorem Follows.effect_eq {attempts : List Attempt} {after after' : Run}
    (h : run.Follows attempts after) (h' : run.Follows attempts after') :
    after.effect = after'.effect := by
  rw [effect, effect, h.outcome, h.fired, h'.outcome, h'.fired]

/-- Tuple by tuple the run makes the same attempts without a rule that is idle throughout. -/
theorem IdleThroughout.onTuples_without
    (h : IdleThroughout sequential before rule rest index tuples run session)
    (hrules : ∀ other ∈ before ++ rule :: rest, Steady (Session.BothTruthful functions) other)
    (hsessions : Session.BothTruthful functions session other) :
    ∃ attempts after after',
      (Attempt.onTuples sequential (before ++ rule :: rest) index tuples run.outcome).run session =
        (.ok attempts, after) ∧
      (Attempt.onTuples sequential (before ++ rest) index tuples run.outcome).run other =
        (.ok attempts, after') := by
  induction h generalizing other with
  | ended => exact ⟨[], _, other, rfl, rfl⟩
  | stopped hstopped =>
    rw [Attempt.onTuples, Attempt.onTuples, if_pos hstopped, if_pos hstopped]
    exact ⟨[], _, other, rfl, rfl⟩
  | @next index tuple tuples run reached session last hidle hrun _ ih =>
    rw [Attempt.onTuples, Attempt.onTuples]
    split
    · exact ⟨[], session, other, rfl, rfl⟩
    · obtain ⟨attempts, after, after', hattempts, hattempts', hafter⟩ :=
        Attempt.onTuple_without hrules hidle hsessions
      obtain ⟨made, reached', last', hmade, hrun', hfollows⟩ := Attempt.onTuple_follows sequential
        index tuple (before ++ rule :: rest) run session
      -- What the run has done on the tuple is the replay of these attempts.
      cases hrun.symm.trans hrun'
      cases hmade.symm.trans hattempts
      obtain ⟨others, end', end'', hothers, hothers'⟩ := ih hafter
      rw [hfollows.outcome] at hothers hothers'
      refine ⟨attempts ++ others, end', end'', ?_, ?_⟩
      · rw [Evaluation.run_bind_ok hattempts, Evaluation.run_bind_ok hothers]
        rfl
      · rw [Evaluation.run_bind_ok hattempts', Evaluation.run_bind_ok hothers']
        rfl

end Run

theorem Ruleset.run_of_make {names : FactNames} {mode : RunMode} {facts : List Fact}
    {generator : TupleGenerator}
    (h : TupleGenerator.make (FactGroup.ofFacts facts names) mode.crossProduct = .ok generator)
    (rules : List (CompiledRule σ)) (start : Run) (session : Session σ) :
    (Ruleset.run ⟨rules, names⟩ mode facts start).run session =
      (Run.onTuples mode.sequential mode.handler rules 0 generator.tuples start).run session := by
  rw [Ruleset.run, Evaluation.run_lift_bind, h]

/-- In a run that skips failures the rule between the others is idle on every tuple that the run
comes to. -/
def Ruleset.IdleRule (names : FactNames) (before : List (CompiledRule σ)) (rule : CompiledRule σ)
    (rest : List (CompiledRule σ)) (mode : RunMode) (facts : List Fact) (start : Run)
    (session : Session σ) : Prop :=
  ∀ generator,
    TupleGenerator.make (FactGroup.ofFacts facts names) mode.crossProduct = .ok generator →
    Run.IdleThroughout mode.sequential before rule rest 0 generator.tuples start session

theorem Ruleset.run_without {names : FactNames} {mode : RunMode} {facts : List Fact} {start : Run}
    (hskip : mode.handler = .skip)
    (hrules : ∀ other ∈ before ++ rule :: rest,
      Run.Steady (Session.BothTruthful functions) other)
    (hsession : session.Truthful functions)
    (hidle : IdleRule names before rule rest mode facts start session) :
    ∃ done,
      ((Ruleset.run ⟨before ++ rule :: rest, names⟩ mode facts start).run session).1.map
        Run.effect = .ok done ∧
      ((Ruleset.run ⟨before ++ rest, names⟩ mode facts start).run session).1.map
        Run.effect = .ok done := by
  obtain ⟨generator, hgenerator, -, -⟩ :=
    TupleGenerator.make_yields (FactGroup.filled_ofFacts facts names) mode.crossProduct
  obtain ⟨attempts, last, last', hattempts, hattempts'⟩ :=
    (hidle generator hgenerator).onTuples_without hrules ⟨hsession, hsession⟩
  obtain ⟨_, after, _, hmade, hrun, hfollows⟩ := Attempt.onTuples_follows mode.sequential
    (before ++ rule :: rest) 0 generator.tuples start session
  obtain ⟨_, after', _, hmade', hrun', hfollows'⟩ := Attempt.onTuples_follows mode.sequential
    (before ++ rest) 0 generator.tuples start session
  cases hmade.symm.trans hattempts
  cases hmade'.symm.trans hattempts'
  refine ⟨after.effect, ?_, ?_⟩
  · rw [run_of_make hgenerator, hskip, hrun]
    rfl
  · rw [run_of_make hgenerator, hskip, hrun', hfollows.effect_eq hfollows']
    rfl

namespace Engine

variable {engine : Engine σ} {source : RuleSource} {now : Instant} {request : Request σ}
  {ruleset : Ruleset σ}

theorem effect_of_rulesetFor (h : (engine.rulesetFor source now request).1 = .ok ruleset) :
    engine.effect source now request =
      ((ruleset.run engine.mode request.facts (.start request.result request.stopped)).run
        engine.session).1.map Run.effect := by
  rw [effect, execute_eq]
  rcases engine.rulesetFor_cases source now request with
    ⟨failure, rulesets, hfound⟩ | ⟨found, rulesets, hfound⟩
  · rw [hfound] at h
    cases h
  · rw [hfound] at h ⊢
    cases h
    exact run_effect ruleset

/-- An engine that skips failures does the same without a rule that is idle in the run, whatever
function results the rule has had kept or thrown out. -/
theorem idle_rule_removed {words : Vocabulary σ}
    (hfunctions : Functions.Deterministic words.functions) (hwords : words.Closed)
    (hengine : engine.Reached words) (hskip : engine.handler = .skip)
    (hcarried : ∀ ruleset ∈ request.carried, ruleset.Calls words.functions)
    (hruleset : (engine.rulesetFor source now request).1 = .ok ruleset)
    (hrules : ruleset.rules = before ++ rule :: rest)
    (hidle : Ruleset.IdleRule ruleset.factNames before rule rest engine.mode request.facts
      (.start request.result request.stopped) engine.session) :
    ∃ done, engine.effect source now request = .ok done ∧
      engine.effect source now
        { request with carried := some ⟨before ++ rest, ruleset.factNames⟩ } = .ok done := by
  obtain ⟨hregistered, htruthful⟩ := hengine.sound hfunctions hwords
  have hcalls := (hregistered.rulesetFor hcarried source now).1 ruleset hruleset
  obtain ⟨rules, names⟩ := ruleset
  obtain rfl : rules = before ++ rule :: rest := hrules
  have hsteady := fun other hother => Run.steady_of_calls hfunctions (hcalls other hother)
  rw [effect_of_rulesetFor hruleset, effect_of_rulesetFor rfl]
  exact Ruleset.run_without hskip hsteady htruthful hidle

/-- Calls the function, and takes its result for a truth value. -/
def misusingRule : CompiledRule Nat where
  id := "misuse"
  formula := .value (.call "count" countingFunction
    [("item", .reference ⟨.named "item", [], .any, "item"⟩)])
  actions := []
  attributes := []
  priority := 1
  facts := [⟨"item", "Item"⟩]

def misusingRequest : Request Nat :=
  { countingRequest with
    carried := some ⟨misusingRule :: countingRuleset.rules, countingRuleset.factNames⟩ }

theorem misusing_rule_removed :
    (∃ done,
      (countingEngine .standard).effect (fun _ => .ok none) ⟨0, 0⟩ misusingRequest = .ok done ∧
      (countingEngine .standard).effect (fun _ => .ok none) ⟨0, 0⟩ countingRequest = .ok done) ∧
    ((countingEngine .standard).effect (fun _ => .ok none) ⟨0, 0⟩ misusingRequest).map Prod.snd =
      .ok [⟨"count", 0⟩, ⟨"count", 1⟩] := by
  have hfunctions : Functions.Deterministic countingWords.functions := by
    intro name function hfunction
    cases List.mem_singleton.mp (Table.mem_of_get? hfunction)
    exact fun _ _ _ => rfl
  have hcarried : ∀ ruleset ∈ misusingRequest.carried, ruleset.Calls countingWords.functions := by
    rintro ruleset ⟨⟩
    refine List.forall_mem_cons.mpr ⟨?_, List.forall_mem_singleton.mpr ?_⟩
    all_goals
      simp [misusingRule, CompiledRule.parts, Term.parts, Formula.parts, Term.partsOfParams,
        Term.Calls]
      rfl
  have hreached : (countingEngine .standard).Reached countingWords := .made ..
  have hrules : misusingRule :: countingRuleset.rules =
      [] ++ misusingRule :: countingRuleset.rules := rfl
  refine ⟨idle_rule_removed hfunctions (Vocabulary.closed_of_builtIn Operators.standard_builtIn)
    hreached rfl hcarried rfl hrules ?_, rfl⟩
  intro generator hgenerator
  cases hgenerator
  exact .next ⟨_, _, rfl, .inr (.inr ⟨_, rfl⟩)⟩ rfl
    (.next ⟨_, _, rfl, .inr (.inr ⟨_, rfl⟩)⟩ rfl .ended)

end Engine
end Rulebook
