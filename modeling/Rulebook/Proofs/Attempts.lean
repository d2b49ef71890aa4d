import Rulebook.Proofs.Modes

/-!
# What a run leaves behind

When failures are skipped, a run is the replay of its attempts: the rules that held on their
tuples, with the arguments they were bound to. An attempt that completes is a rule that fired. One
that fails is not undone, so what its actions changed before they failed is part of the result; a
rule that could not be tested or bound makes no attempt at all.
-/
namespace Rulebook

variable {σ : Type}

namespace BoundAction

variable {ruleId : String} {actions : List BoundAction} {before after : Outcome}

/-- The actions succeed one after the other, and lead from the first outcome to the second. -/
inductive Succeed (ruleId : String) : List BoundAction → Outcome → Outcome → Prop
  | none {outcome : Outcome} : Succeed ruleId [] outcome outcome
  | next {bound : BoundAction} {rest : List BoundAction} {before between after : Outcome} :
    bound.action.run ruleId bound.arguments before = (.ok (), between) →
      Succeed ruleId rest between after → Succeed ruleId (bound :: rest) before after

theorem runAll_cons_of_ok {bound : BoundAction} {rest : List BoundAction} {between : Outcome}
    (h : bound.action.run ruleId bound.arguments before = (.ok (), between)) :
    runAll ruleId (bound :: rest) before = runAll ruleId rest between := by
  rw [runAll, h]

theorem runAll_cons_of_error {bound : BoundAction} {rest : List BoundAction} {failure : Failure}
    (h : bound.action.run ruleId bound.arguments before = (.error failure, after)) :
    runAll ruleId (bound :: rest) before = (.error failure, after) := by
  rw [runAll, h]

/-- The first failure is the one of an action behind actions that succeed. What they have done
stays, and so does what the failing action has done; those behind it do nothing. -/
theorem runAll_error_iff {failure : Failure} :
    runAll ruleId actions before = (.error failure, after) ↔
      ∃ done failing rest between, actions = done ++ failing :: rest ∧
        Succeed ruleId done before between ∧
          failing.action.run ruleId failing.arguments between = (.error failure, after) := by
  constructor
  · intro h
    induction actions generalizing before with
    | nil => cases h
    | cons bound rest ih =>
      rcases hrun : bound.action.run ruleId bound.arguments before with ⟨failure' | ⟨⟩, between⟩
      · rw [runAll_cons_of_error hrun] at h
        exact ⟨[], bound, rest, before, rfl, .none, hrun.trans h⟩
      · rw [runAll_cons_of_ok hrun] at h
        obtain ⟨done, failing, others, last, rfl, hdone, hfails⟩ := ih h
        exact ⟨bound :: done, failing, others, last, rfl, .next hrun hdone, hfails⟩
  · rintro ⟨done, failing, rest, between, rfl, hdone, hfails⟩
    induction hdone with
    | none => exact runAll_cons_of_error hfails
    | next hok _ ih =>
      rw [List.cons_append, runAll_cons_of_ok hok]
      exact ih hfails

theorem runAll_ok_iff :
    runAll ruleId actions before = (.ok (), after) ↔ Succeed ruleId actions before after := by
  constructor
  · intro h
    induction actions generalizing before with
    | nil =>
      cases h
      exact .none
    | cons bound rest ih =>
      rcases hrun : bound.action.run ruleId bound.arguments before with ⟨failure | ⟨⟩, between⟩
      · rw [runAll_cons_of_error hrun] at h
        cases h
      · rw [runAll_cons_of_ok hrun] at h
        exact .next hrun (ih h)
  · intro h
    induction h with
    | none => rfl
    | next hok _ ih => rw [runAll_cons_of_ok hok, ih]

end BoundAction

/-- A rule that held on a tuple, with its bound actions. -/
structure Attempt where
  ruleId : String
  tuple : Nat
  actions : List BoundAction

namespace Attempt

/-- The actions run up to the first one that fails. -/
def run (attempt : Attempt) (outcome : Outcome) : Except Failure Unit × Outcome :=
  BoundAction.runAll attempt.ruleId attempt.actions outcome

def completes (attempt : Attempt) (outcome : Outcome) : Bool := (attempt.run outcome).1.isOk

/-- The outcome after all attempts, whether or not they complete. -/
def replay : List Attempt → Outcome → Outcome
  | [], outcome => outcome
  | attempt :: rest, outcome => replay rest (attempt.run outcome).2

/-- The rules whose attempts complete. -/
def completed : List Attempt → Outcome → List FiredRule
  | [], _ => []
  | attempt :: rest, outcome =>
    let others := completed rest (attempt.run outcome).2
    if attempt.completes outcome then ⟨attempt.ruleId, attempt.tuple⟩ :: others else others

theorem replay_append (attempts more : List Attempt) (outcome : Outcome) :
    replay (attempts ++ more) outcome = replay more (replay attempts outcome) := by
  induction attempts generalizing outcome with
  | nil => rfl
  | cons attempt rest ih => exact ih (attempt.run outcome).2

theorem completed_append (attempts more : List Attempt) (outcome : Outcome) :
    completed (attempts ++ more) outcome =
      completed attempts outcome ++ completed more (replay attempts outcome) := by
  induction attempts generalizing outcome with
  | nil => rfl
  | cons attempt rest ih =>
    rw [List.cons_append, completed, completed, replay, ih]
    split <;> rfl

/-- Whether an attempt changed anything for the next rule to see depends on the mode. -/
def onTuple (sequential : Bool) (index : Nat) (tuple : Tuple) :
    List (CompiledRule σ) → Outcome → Evaluation σ (List Attempt)
  | [], _ => pure []
  | rule :: rest, seen =>
    if rule.appliesTo tuple then do
      match ← Run.attempt (rule.evaluate (rule.environment tuple seen)) with
      | .ok (some actions) => do
        let attempt : Attempt := ⟨rule.id, index, actions⟩
        let others ← onTuple sequential index tuple rest
          (if sequential then (attempt.run seen).2 else seen)
        pure (attempt :: others)
      | _ => onTuple sequential index tuple rest seen
    else onTuple sequential index tuple rest seen

def onTuples (sequential : Bool) (rules : List (CompiledRule σ)) :
    Nat → List Tuple → Outcome → Evaluation σ (List Attempt)
  | _, [], _ => pure []
  | index, tuple :: rest, outcome =>
    if outcome.stopped then pure []
    else do
      let attempts ← onTuple sequential index tuple rules outcome
      let others ← onTuples sequential rules (index + 1) rest (replay attempts outcome)
      pure (attempts ++ others)

end Attempt

/-- The attempts of a run that skips failures. -/
def Ruleset.attempts (ruleset : Ruleset σ) (mode : RunMode) (facts : List Fact)
    (outcome : Outcome) : Evaluation σ (List Attempt) := do
  let groups := FactGroup.ofFacts facts ruleset.factNames
  let generator ← liftExcept (TupleGenerator.make groups mode.crossProduct)
  Attempt.onTuples mode.sequential ruleset.rules 0 generator.tuples outcome

namespace Run

/-- The later run has replayed the attempts, and fired the rules whose attempts completed. -/
structure Follows (run : Run) (attempts : List Attempt) (after : Run) : Prop where
  outcome : after.outcome = Attempt.replay attempts run.outcome
  fired : after.fired = run.fired ++ Attempt.completed attempts run.outcome

variable {run after last : Run} {attempts more : List Attempt}

theorem Follows.none (h : Same run after) : run.Follows [] after :=
  ⟨h.1.symm, by rw [Attempt.completed, List.append_nil, h.2]⟩

theorem Follows.append (h : run.Follows attempts after) (h' : after.Follows more last) :
    run.Follows (attempts ++ more) last := by
  constructor
  · rw [h'.outcome, h.outcome, Attempt.replay_append]
  · rw [h'.fired, h.fired, h.outcome, Attempt.completed_append, List.append_assoc]

theorem fire_follows (run : Run) (attempt : Attempt) :
    ∃ after, run.fire .skip attempt.tuple attempt.ruleId attempt.actions = .ok after ∧
      run.Follows [attempt] after := by
  have hrun : attempt.run run.outcome =
      BoundAction.runAll attempt.ruleId attempt.actions run.outcome := rfl
  unfold fire
  rcases hall : BoundAction.runAll attempt.ruleId attempt.actions run.outcome
    with ⟨failure | _, outcome⟩
  · rw [hall] at hrun
    refine ⟨_, rfl, ?_, ?_⟩
    · simp [Attempt.replay, hrun]
    · simp [Attempt.completed, Attempt.completes, hrun, Except.isOk, Except.toBool]
  · rw [hall] at hrun
    refine ⟨_, rfl, ?_, ?_⟩
    · simp [Attempt.replay, hrun]
    · simp [Attempt.completed, Attempt.completes, hrun, Except.isOk, Except.toBool]

end Run

namespace Attempt

variable {rule : CompiledRule σ} {rules rest : List (CompiledRule σ)} {sequential : Bool}
  {index : Nat} {tuple : Tuple}

theorem onTuple_of_applies (happlies : rule.appliesTo tuple = true) (seen : Outcome)
    (session : Session σ) :
    (onTuple sequential index tuple (rule :: rest) seen).run session =
      match (rule.evaluate (rule.environment tuple seen)).run session with
      | (.ok (some actions), after) =>
        match (onTuple sequential index tuple rest
          (if sequential then (run ⟨rule.id, index, actions⟩ seen).2 else seen)).run after with
        | (.ok others, last) => (.ok (⟨rule.id, index, actions⟩ :: others), last)
        | (.error failure, last) => (.error failure, last)
      | (_, after) => (onTuple sequential index tuple rest seen).run after := by
  rw [onTuple, if_pos happlies, Evaluation.run_bind, Evaluation.run_attempt]
  rcases (rule.evaluate (rule.environment tuple seen)).run session
    with ⟨_ | _ | actions, after⟩
  · rfl
  · rfl
  · dsimp only
    rw [Evaluation.run_bind]
    rcases (onTuple sequential index tuple rest
      (if sequential = true then (run ⟨rule.id, index, actions⟩ seen).2 else seen)).run after
      with ⟨_ | _, last⟩ <;> rfl

/-- Rules that are fired one by one make their attempts one by one. -/
theorem fireSequential_follows (start : Run) (session : Session σ) :
    ∃ attempts after last,
      (onTuple true index tuple rules start.outcome).run session = (.ok attempts, last) ∧
      (Run.fireSequential .skip index tuple rules start).run session = (.ok after, last) ∧
      start.Follows attempts after := by
  induction rules generalizing start session with
  | nil => exact ⟨[], start, session, rfl, rfl, .none (.refl start)⟩
  | cons rule rest ih =>
    by_cases happlies : rule.appliesTo tuple = true
    · rw [onTuple_of_applies happlies, Run.fireSequential_of_applies happlies]
      rcases (rule.evaluate (rule.environment tuple start.outcome)).run session
        with ⟨failure | _ | actions, after⟩
      · obtain ⟨attempts, run, last, hattempts, hrun, hfollows⟩ :=
          ih { start with skipped := start.skipped ++ [(rule.id, failure)] } after
        exact ⟨attempts, run, last, hattempts, hrun, hfollows.outcome, hfollows.fired⟩
      · exact ih start after
      · obtain ⟨fired, hfire, hfollows⟩ := Run.fire_follows start ⟨rule.id, index, actions⟩
        obtain ⟨attempts, run, last, hattempts, hrun, hrest⟩ := ih fired after
        dsimp only at hfire ⊢
        rw [Evaluation.run_lift_bind, hfire, if_pos rfl]
        rw [hfollows.outcome] at hattempts
        refine ⟨⟨rule.id, index, actions⟩ :: attempts, run, last, ?_, hrun, hfollows.append hrest⟩
        have hseen : replay [⟨rule.id, index, actions⟩] start.outcome =
            (Attempt.run ⟨rule.id, index, actions⟩ start.outcome).2 := rfl
        rw [← hseen, hattempts]
    · rw [onTuple, if_neg happlies, Run.fireSequential, if_neg happlies]
      exact ih start session

/-- Rules that are selected together have been bound together. -/
theorem select_attempts (index : Nat) (tuple : Tuple) (rules : List (CompiledRule σ))
    (start : Run) (session : Session σ) :
    ∃ matched after last,
      (onTuple false index tuple rules start.outcome).run session =
        (.ok (matched.map fun rule => ⟨rule.1, index, rule.2⟩), last) ∧
      (Run.select .skip tuple rules start).run session = (.ok (matched, after), last) := by
  induction rules generalizing start session with
  | nil => exact ⟨[], start, session, rfl, rfl⟩
  | cons rule rest ih =>
    by_cases happlies : rule.appliesTo tuple = true
    · rw [onTuple_of_applies happlies, Run.select_of_applies happlies]
      rcases (rule.evaluate (rule.environment tuple start.outcome)).run session
        with ⟨failure | _ | actions, after⟩
      · exact ih { start with skipped := start.skipped ++ [(rule.id, failure)] } after
      · exact ih start after
      · obtain ⟨matched, run, last, hattempts, hselect⟩ := ih start after
        dsimp only
        rw [if_neg Bool.false_ne_true, hattempts, hselect]
        exact ⟨(rule.id, actions) :: matched, run, last, rfl, rfl⟩
    · rw [onTuple, if_neg happlies, Run.select, if_neg happlies]
      exact ih start session

theorem fireAll_follows (index : Nat) (matched : List (String × List BoundAction))
    (start : Run) :
    ∃ after, Run.fireAll .skip index matched start = .ok after ∧
      start.Follows (matched.map fun rule => ⟨rule.1, index, rule.2⟩) after := by
  induction matched generalizing start with
  | nil => exact ⟨start, rfl, .none (.refl start)⟩
  | cons first rest ih =>
    obtain ⟨fired, hfire, hfollows⟩ := Run.fire_follows start ⟨first.1, index, first.2⟩
    obtain ⟨after, hafter, hrest⟩ := ih fired
    refine ⟨after, ?_, hfollows.append hrest⟩
    rw [Run.fireAll]
    dsimp only at hfire
    rw [hfire]
    exact hafter

theorem onTuple_follows (sequential : Bool) (index : Nat) (tuple : Tuple)
    (rules : List (CompiledRule σ)) (start : Run) (session : Session σ) :
    ∃ attempts after last,
      (onTuple sequential index tuple rules start.outcome).run session = (.ok attempts, last) ∧
      (Run.onTuple sequential .skip index tuple rules start).run session = (.ok after, last) ∧
      start.Follows attempts after := by
  cases sequential with
  | true =>
    rw [Run.onTuple, if_pos rfl]
    exact fireSequential_follows start session
  | false =>
    obtain ⟨matched, selected, last, hattempts, hselect⟩ :=
      select_attempts index tuple rules start session
    obtain ⟨after, hafter, hfollows⟩ := fireAll_follows index matched selected
    have hkept := Run.Follows.none (Run.select_same hselect)
    refine ⟨_, after, last, hattempts, ?_, hkept.append hfollows⟩
    rw [Run.onTuple, if_neg Bool.false_ne_true, Run.fireBatched, Evaluation.run_bind, hselect]
    dsimp only
    rw [Evaluation.run_lift, hafter]

theorem onTuples_follows (sequential : Bool) (rules : List (CompiledRule σ)) (index : Nat)
    (tuples : List Tuple) (start : Run) (session : Session σ) :
    ∃ attempts after last,
      (onTuples sequential rules index tuples start.outcome).run session = (.ok attempts, last) ∧
      (Run.onTuples sequential .skip rules index tuples start).run session = (.ok after, last) ∧
      start.Follows attempts after := by
  induction tuples generalizing index start session with
  | nil => exact ⟨[], start, session, rfl, rfl, .none (.refl start)⟩
  | cons tuple rest ih =>
    rw [onTuples, Run.onTuples]
    split
    · exact ⟨[], start, session, rfl, rfl, .none (.refl start)⟩
    · obtain ⟨attempts, mid, between, hattempts, hmid, hfollows⟩ :=
        onTuple_follows sequential index tuple rules start session
      obtain ⟨others, after, last, hothers, hafter, hrest⟩ := ih (index + 1) mid between
      rw [hfollows.outcome] at hothers
      refine ⟨attempts ++ others, after, last, ?_, ?_, hfollows.append hrest⟩
      · rw [Evaluation.run_bind_ok hattempts, Evaluation.run_bind_ok hothers]
        rfl
      · rw [Evaluation.run_bind_ok hmid]
        exact hafter

/-- One of the rules held, in some environment, and was bound to the actions of the attempt. -/
def Of (rules : List (CompiledRule σ)) (attempt : Attempt) : Prop :=
  ∃ rule ∈ rules, rule.id = attempt.ruleId ∧ ∃ tuple seen session last,
    (rule.evaluate (rule.environment tuple seen)).run session = (.ok (some attempt.actions), last)

theorem Of.cons {attempt : Attempt} (h : attempt.Of rest) (rule : CompiledRule σ) :
    attempt.Of (rule :: rest) := by
  obtain ⟨other, hother, hattempt⟩ := h
  exact ⟨other, List.mem_cons_of_mem _ hother, hattempt⟩

/-- Only rules that held make attempts. -/
theorem onTuple_of {seen : Outcome} {session last : Session σ} {attempts : List Attempt}
    (h : (onTuple sequential index tuple rules seen).run session = (.ok attempts, last)) :
    ∀ attempt ∈ attempts, attempt.Of rules := by
  induction rules generalizing seen session attempts with
  | nil =>
    cases h
    exact List.forall_mem_nil _
  | cons rule rest ih =>
    by_cases happlies : rule.appliesTo tuple = true
    · rw [onTuple_of_applies happlies] at h
      split at h
      · next actions after heval =>
        split at h
        · next others hothers =>
          cases h
          refine List.forall_mem_cons.mpr ⟨?_, fun attempt hattempt => ?_⟩
          · exact ⟨rule, List.mem_cons_self, rfl, tuple, seen, session, after, heval⟩
          · exact (ih hothers attempt hattempt).cons rule
        · cases h
      · exact fun attempt hattempt => (ih h attempt hattempt).cons rule
    · rw [onTuple, if_neg happlies] at h
      exact fun attempt hattempt => (ih h attempt hattempt).cons rule

theorem onTuples_of {tuples : List Tuple} {outcome : Outcome} {session last : Session σ}
    {attempts : List Attempt}
    (h : (onTuples sequential rules index tuples outcome).run session = (.ok attempts, last)) :
    ∀ attempt ∈ attempts, attempt.Of rules := by
  induction tuples generalizing index outcome session attempts with
  | nil =>
    cases h
    exact List.forall_mem_nil _
  | cons tuple rest ih =>
    rw [onTuples] at h
    split at h
    · cases h
      exact List.forall_mem_nil _
    · rw [Evaluation.run_bind] at h
      split at h
      · next first after hfirst =>
        rw [Evaluation.run_bind] at h
        split at h
        · next others _ hothers =>
          cases h
          exact List.forall_mem_append.mpr ⟨onTuple_of hfirst, ih hothers⟩
        · cases h
      · cases h

end Attempt

theorem Ruleset.attempts_of {ruleset : Ruleset σ} {mode : RunMode} {facts : List Fact}
    {outcome : Outcome} {session last : Session σ} {attempts : List Attempt}
    (h : (ruleset.attempts mode facts outcome).run session = (.ok attempts, last)) :
    ∀ attempt ∈ attempts, attempt.Of ruleset.rules := by
  unfold Ruleset.attempts at h
  dsimp only at h
  rw [Evaluation.run_lift_bind] at h
  split at h
  · exact Attempt.onTuples_of h
  · cases h

theorem Ruleset.run_follows {ruleset : Ruleset σ} {mode : RunMode} {facts : List Fact}
    {start after : Run} {session last : Session σ} (hskip : mode.handler = .skip)
    (h : (ruleset.run mode facts start).run session = (.ok after, last)) :
    ∃ attempts, (ruleset.attempts mode facts start.outcome).run session = (.ok attempts, last) ∧
      start.Follows attempts after := by
  unfold Ruleset.run at h
  unfold Ruleset.attempts
  dsimp only at h ⊢
  rw [Evaluation.run_lift_bind] at h ⊢
  split at h
  · next generator _ =>
    obtain ⟨attempts, run, end', hattempts, hrun, hfollows⟩ :=
      Attempt.onTuples_follows mode.sequential ruleset.rules 0 generator.tuples start session
    rw [hskip, hrun] at h
    cases h
    exact ⟨attempts, hattempts, hfollows⟩
  · cases h

namespace Engine

variable {engine : Engine σ} {source : RuleSource} {now : Instant} {request : Request σ}
  {report : Report σ} {after : Engine σ}

/-- A run that skips failures ends with the replay of its attempts, and the rules that it has fired
are those whose attempts completed. All attempts are of rules that held and could be bound. -/
theorem execute_replays (hskip : engine.handler = .skip)
    (h : engine.execute source now request = (.ok report, after)) :
    ∃ attempts,
      (report.ruleset.attempts engine.mode request.facts ⟨request.result, request.stopped⟩).run
        engine.session = (.ok attempts, after.session) ∧
      (∀ attempt ∈ attempts, attempt.Of report.ruleset.rules) ∧
      report.run.outcome = Attempt.replay attempts ⟨request.result, request.stopped⟩ ∧
      report.run.fired = Attempt.completed attempts ⟨request.result, request.stopped⟩ := by
  rw [execute_eq] at h
  rcases engine.rulesetFor_cases source now request with
    ⟨failure, rulesets, hfound⟩ | ⟨ruleset, rulesets, hfound⟩
  · rw [hfound] at h
    cases h
  · rw [hfound] at h
    dsimp only at h
    rw [run_eq] at h
    split at h
    · next run session hrun =>
      cases h
      obtain ⟨attempts, hattempts, hfollows⟩ := Ruleset.run_follows hskip hrun
      exact ⟨attempts, hattempts, Ruleset.attempts_of hattempts, hfollows.outcome, hfollows.fired⟩
    · cases h

theorem collect_replays : ∃ report after attempts,
    skippingEngine.execute (fun _ => .ok none) ⟨0, 0⟩ collectRequest = (.ok report, after) ∧
    (report.ruleset.attempts skippingEngine.mode collectRequest.facts ⟨.null, false⟩).run
      skippingEngine.session = (.ok attempts, after.session) ∧
    (∀ attempt ∈ attempts, attempt.Of report.ruleset.rules) ∧
    report.run.outcome = Attempt.replay attempts ⟨.null, false⟩ ∧
    report.run.fired = Attempt.completed attempts ⟨.null, false⟩ := by
  have hrun : skippingEngine.execute (fun _ => .ok none) ⟨0, 0⟩ collectRequest = (.ok _, _) := rfl
  obtain ⟨attempts, hattempts, hof, houtcome, hfired⟩ := execute_replays rfl hrun
  exact ⟨_, _, attempts, hrun, hattempts, hof, houtcome, hfired⟩

/-- A rule whose second action fails has not fired, and the result is not the one it started
from. -/
theorem skipped_rule_leaves_trace :
    ∃ report after, skippingEngine.execute (fun _ => .ok none) ⟨0, 0⟩ collectRequest =
        (.ok report, after) ∧
      report.run.fired = [] ∧ report.run.outcome.result ≠ collectRequest.result := by
  refine ⟨_, _, rfl, rfl, ?_⟩
  intro h
  cases h

end Engine
end Rulebook
