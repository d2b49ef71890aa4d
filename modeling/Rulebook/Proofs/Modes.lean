import Rulebook.Engine
import Rulebook.Proofs.Agreement

/-!
# Sequential and batched runs

Rules that look neither at the result nor at the stop signal are evaluated alike before and after
other rules fire. For them the two modes do the same to the result, in the same order. Failures are
met in another order, so that a run which propagates them may end with a different one.
-/
namespace Rulebook

variable {σ : Type}

/-- The term itself reads nothing that firing changes. -/
def Term.Blind : Term σ → Prop
  | .reference r => r.base ≠ .context ∧ r.base ≠ .controller
  | _ => True

def CompiledRule.Blind (rule : CompiledRule σ) : Prop := ∀ part ∈ rule.parts, part.Blind

def Ruleset.Blind (ruleset : Ruleset σ) : Prop := ∀ rule ∈ ruleset.rules, rule.Blind

/-- A blind rule is evaluated alike whatever has become of the result. -/
theorem CompiledRule.Blind.evaluate_eq {rule : CompiledRule σ} (h : rule.Blind) (tuple : Tuple)
    (outcome outcome' : Outcome) :
    rule.evaluate (rule.environment tuple outcome) =
      rule.evaluate (rule.environment tuple outcome') := by
  refine Evaluation.eq_of_agree (evaluate_agree fun part hpart => ?_)
  have hblind := h part hpart
  cases part with
  | reference r =>
    obtain ⟨base, path, shape, text⟩ := r
    obtain ⟨hcontext, hcontroller⟩ := hblind
    cases base with
    | named name => rfl
    | ruleName => rfl
    | context => exact absurd rfl hcontext
    | controller => exact absurd rfl hcontroller
  | call name function params =>
    rintro arguments s _ rfl
    exact ⟨rfl, rfl⟩
  | constant _ _ | list _ | formula _ => trivial

namespace Run

variable {policy : FailurePolicy} {handler : FailureHandler} {index : Nat} {tuple : Tuple}
  {run other : Run}

/-- The runs have done the same; they may have skipped failures in another order. -/
def Same (run other : Run) : Prop := run.outcome = other.outcome ∧ run.fired = other.fired

theorem Same.refl (run : Run) : Same run run := ⟨rfl, rfl⟩

/-- Two steps end alike: both have done the same, or both propagate a failure. -/
inductive Alike (policy : FailurePolicy) :
    Except Failure Run × Session σ → Except Failure Run × Session σ → Prop
  | done {run other : Run} {session : Session σ} (h : Same run other) :
    Alike policy (.ok run, session) (.ok other, session)
  | failed {failure failure' : Failure} {session session' : Session σ} (h : policy = .propagate) :
    Alike policy (.error failure, session) (.error failure', session')

/-- A failure that is passed over changes nothing that the run has done. -/
theorem Same.of_handle {ruleId : String} {failure : Failure}
    (h : run.handle handler ruleId failure = .ok other) : Same run other := by
  unfold Run.handle at h
  split at h
  · cases h
    exact ⟨rfl, rfl⟩
  · cases h

theorem Same.handle (h : Same run other) (policy : FailurePolicy) (ruleId : String)
    (failure : Failure) (session : Session σ) :
    Alike policy (run.handle policy.handler ruleId failure, session)
      (other.handle policy.handler ruleId failure, session) := by
  cases policy with
  | propagate => exact .failed rfl
  | skip => exact .done h

theorem Same.fire (h : Same run other) (policy : FailurePolicy) (index : Nat) (ruleId : String)
    (bound : List BoundAction) (session : Session σ) :
    Alike policy (run.fire policy.handler index ruleId bound, session)
      (other.fire policy.handler index ruleId bound, session) := by
  obtain ⟨houtcome, hfired⟩ := h
  unfold Run.fire
  rw [houtcome]
  rcases BoundAction.runAll ruleId bound other.outcome with ⟨_ | _, outcome⟩
  · have hsame : Same { run with outcome } { other with outcome } := ⟨rfl, hfired⟩
    exact hsame.handle policy ruleId _ session
  · exact .done ⟨rfl, by rw [hfired]⟩

variable {rule : CompiledRule σ} {rest : List (CompiledRule σ)}

theorem fireSequential_of_applies (happlies : rule.appliesTo tuple = true) (session : Session σ) :
    (fireSequential handler index tuple (rule :: rest) run).run session =
      match (rule.evaluate (rule.environment tuple run.outcome)).run session with
      | (.ok none, after) => (fireSequential handler index tuple rest run).run after
      | (.ok (some bound), after) =>
        (liftExcept (run.fire handler index rule.id bound) >>=
          fireSequential handler index tuple rest).run after
      | (.error failure, after) =>
        (liftExcept (run.handle handler rule.id failure) >>=
          fireSequential handler index tuple rest).run after := by
  rw [fireSequential, if_pos happlies, Evaluation.run_bind, Run.evaluate, Evaluation.run_attempt]
  rcases (rule.evaluate (rule.environment tuple run.outcome)).run session
    with ⟨_ | _ | _, after⟩ <;> rfl

theorem select_of_applies (happlies : rule.appliesTo tuple = true) (session : Session σ) :
    (select handler tuple (rule :: rest) run).run session =
      match (rule.evaluate (rule.environment tuple run.outcome)).run session with
      | (.ok none, after) => (select handler tuple rest run).run after
      | (.ok (some bound), after) =>
        match (select handler tuple rest run).run after with
        | (.ok (others, run'), last) => (.ok ((rule.id, bound) :: others, run'), last)
        | (.error failure, last) => (.error failure, last)
      | (.error failure, after) =>
        (liftExcept (run.handle handler rule.id failure) >>=
          select handler tuple rest).run after := by
  rw [select, if_pos happlies, Evaluation.run_bind, Run.evaluate, Evaluation.run_attempt]
  rcases (rule.evaluate (rule.environment tuple run.outcome)).run session
    with ⟨_ | _ | bound, after⟩
  · rfl
  · rfl
  · dsimp only
    rw [Evaluation.run_bind]
    rcases (select handler tuple rest run).run after with ⟨_ | ⟨others, run'⟩, last⟩ <;> rfl

/-- Selecting rules fires none of them. -/
theorem select_same {rules : List (CompiledRule σ)} {run run' : Run} {session after : Session σ}
    {matched : List (String × List BoundAction)}
    (h : (select handler tuple rules run).run session = (.ok (matched, run'), after)) :
    Same run run' := by
  induction rules generalizing run session matched with
  | nil =>
    cases h
    exact Same.refl _
  | cons rule rest ih =>
    by_cases happlies : rule.appliesTo tuple = true
    · rw [select_of_applies happlies] at h
      split at h
      · exact ih h
      · split at h
        · next hrest =>
          cases h
          exact ih hrest
        · cases h
      · next failure after _ =>
        rw [Evaluation.run_lift_bind] at h
        split at h
        · next passed hpassed =>
          obtain ⟨houtcome, hfired⟩ := Same.of_handle hpassed
          obtain ⟨houtcome', hfired'⟩ := ih h
          exact ⟨houtcome.trans houtcome', hfired.trans hfired'⟩
        · cases h
    · rw [select, if_neg happlies] at h
      exact ih h

/-- Firing the rules that were selected does what firing them one by one does. If the selection
fails, so does the other way. -/
theorem fireSequential_alike (policy : FailurePolicy) (index : Nat) (tuple : Tuple)
    {rules : List (CompiledRule σ)} (hblind : ∀ rule ∈ rules, rule.Blind)
    {run other : Run} (hsame : Same run other) : ∀ (base : Run) (session : Session σ),
    match (select policy.handler tuple rules base).run session with
    | (.ok (matched, _), after) =>
      Alike policy ((fireSequential policy.handler index tuple rules run).run session)
        (fireAll policy.handler index matched other, after)
    | (.error failure, after) =>
      Alike policy ((fireSequential policy.handler index tuple rules run).run session)
        (.error failure, after) := by
  induction rules generalizing run other with
  | nil => exact fun _ _ => .done hsame
  | cons rule rest ih =>
    intro base session
    rw [List.forall_mem_cons] at hblind
    by_cases happlies : rule.appliesTo tuple = true
    · rw [select_of_applies happlies, fireSequential_of_applies happlies,
        hblind.1.evaluate_eq tuple run.outcome base.outcome]
      rcases (rule.evaluate (rule.environment tuple base.outcome)).run session
        with ⟨failure | _ | bound, after⟩
      · dsimp only
        rw [Evaluation.run_lift_bind, Evaluation.run_lift_bind]
        cases policy with
        | propagate => exact .failed rfl
        | skip =>
          dsimp only [Run.handle]
          have hskipped : Same { run with skipped := run.skipped ++ [(rule.id, failure)] } other :=
            hsame
          exact ih hblind.2 hskipped _ after
      · exact ih hblind.2 hsame base after
      · dsimp only
        rw [Evaluation.run_lift_bind]
        have hfire := hsame.fire policy index rule.id bound after
        generalize hone : run.fire policy.handler index rule.id bound = one at hfire ⊢
        generalize htwo : other.fire policy.handler index rule.id bound = two at hfire
        cases hfire with
        | done hfired =>
          have hrest := ih hblind.2 hfired base after
          rcases hselect : (select policy.handler tuple rest base).run after
            with ⟨failure | ⟨others, run'⟩, last⟩
          · rw [hselect] at hrest
            exact hrest
          · rw [hselect] at hrest
            dsimp only at hrest ⊢
            rw [fireAll, htwo]
            exact hrest
        | failed hpolicy =>
          rcases (select policy.handler tuple rest base).run after with ⟨failure | ⟨others, run'⟩, last⟩
          · exact .failed hpolicy
          · dsimp only
            rw [fireAll, htwo]
            exact .failed hpolicy
    · rw [select, if_neg happlies, fireSequential, if_neg happlies]
      exact ih hblind.2 hsame base session

theorem onTuple_alike (policy : FailurePolicy) (index : Nat) (tuple : Tuple)
    {rules : List (CompiledRule σ)} (hblind : ∀ rule ∈ rules, rule.Blind) (hsame : Same run other)
    (session : Session σ) :
    Alike policy ((onTuple true policy.handler index tuple rules run).run session)
      ((onTuple false policy.handler index tuple rules other).run session) := by
  rw [onTuple, if_pos rfl, onTuple, if_neg Bool.false_ne_true, fireBatched, Evaluation.run_bind]
  rcases hselect : (select policy.handler tuple rules other).run session
    with ⟨failure | ⟨matched, other'⟩, after⟩
  · have hone := fireSequential_alike policy index tuple hblind hsame other session
    rw [hselect] at hone
    exact hone
  · have hkept := select_same hselect
    have hsame' : Same run other' := ⟨hsame.1.trans hkept.1, hsame.2.trans hkept.2⟩
    have hone := fireSequential_alike policy index tuple hblind hsame' other session
    rw [hselect] at hone
    dsimp only at hone ⊢
    rw [Evaluation.run_lift]
    exact hone

theorem onTuples_alike (policy : FailurePolicy) {rules : List (CompiledRule σ)}
    (hblind : ∀ rule ∈ rules, rule.Blind) {tuples : List Tuple} {run other : Run}
    (hsame : Same run other) (index : Nat) (session : Session σ) :
    Alike policy ((onTuples true policy.handler rules index tuples run).run session)
      ((onTuples false policy.handler rules index tuples other).run session) := by
  induction tuples generalizing index run other session with
  | nil => exact .done hsame
  | cons tuple rest ih =>
    rw [onTuples, onTuples, hsame.1]
    split
    · exact .done hsame
    · rw [Evaluation.run_bind, Evaluation.run_bind]
      have htuple := onTuple_alike policy index tuple hblind hsame session
      generalize (onTuple true policy.handler index tuple rules run).run session = one at htuple ⊢
      generalize (onTuple false policy.handler index tuple rules other).run session = two at htuple ⊢
      cases htuple with
      | done h => exact ih h (index + 1) _
      | failed h => exact .failed h

/-- What a run has done: the result, the stop signal and the rules that fired. -/
def effect (run : Run) : Outcome × List FiredRule := (run.outcome, run.fired)

theorem Alike.effect_eq {one two : Except Failure Run × Session σ} (h : Alike policy one two) :
    (policy = .skip → one.1.map effect = two.1.map effect) ∧
      (one.1.map effect).toOption = (two.1.map effect).toOption := by
  cases h with
  | done hsame =>
    have heffect : ∀ {run other : Run}, Same run other → effect run = effect other :=
      fun h => Prod.ext h.1 h.2
    simp only [Except.map, heffect hsame, implies_true, and_self]
  | failed hpolicy =>
    refine ⟨fun hskip => ?_, rfl⟩
    rw [hpolicy] at hskip
    cases hskip

end Run

theorem Ruleset.run_modes {ruleset : Ruleset σ} (hblind : ruleset.Blind) (crossProduct : Bool)
    (policy : FailurePolicy) (facts : List Fact) (start : Run) (session : Session σ) :
    let one := (ruleset.run ⟨true, crossProduct, policy.handler⟩ facts start).run session
    let two := (ruleset.run ⟨false, crossProduct, policy.handler⟩ facts start).run session
    (policy = .skip → one.1.map Run.effect = two.1.map Run.effect) ∧
      (one.1.map Run.effect).toOption = (two.1.map Run.effect).toOption := by
  unfold Ruleset.run
  dsimp only
  rw [Evaluation.run_lift_bind, Evaluation.run_lift_bind]
  cases TupleGenerator.make (FactGroup.ofFacts facts ruleset.factNames) crossProduct with
  | error failure => exact ⟨fun _ => rfl, rfl⟩
  | ok generator => exact (Run.onTuples_alike policy hblind (Run.Same.refl start) 0 session).effect_eq

namespace Engine

variable {engine : Engine σ} {source : RuleSource} {now : Instant} {request : Request σ}

/-- The ruleset that a request is about: the one it carries, or the one under its URI. -/
def rulesetFor (engine : Engine σ) (source : RuleSource) (now : Instant) (request : Request σ) :
    Except Failure (Ruleset σ) × Engine σ :=
  match request.carried with
  | some ruleset => (.ok ruleset, engine)
  | none =>
    let (found, engine) := engine.get source now request.uri
    (found.map LoadedRuleset.ruleset, engine)

theorem execute_eq :
    engine.execute source now request =
      match engine.rulesetFor source now request with
      | (.ok ruleset, engine) => engine.run ruleset request
      | (.error failure, engine) => (.error failure, engine) := by
  unfold execute rulesetFor
  cases request.carried with
  | some ruleset => rfl
  | none =>
    dsimp only
    rcases engine.get source now request.uri with ⟨_ | _, _⟩ <;> rfl

/-- The engine in one of the two modes. -/
def inMode (engine : Engine σ) (sequential : Bool) : Engine σ :=
  { engine with settings := { engine.settings with sequential } }

theorem rulesetFor_inMode (sequential : Bool) :
    (engine.inMode sequential).rulesetFor source now request =
      ((engine.rulesetFor source now request).1,
        (engine.rulesetFor source now request).2.inMode sequential) := by
  unfold rulesetFor
  cases request.carried <;> rfl

/-- Looking for a ruleset changes nothing but the rulesets that are kept, whether it is found or
not. -/
theorem rulesetFor_cases (engine : Engine σ) (source : RuleSource) (now : Instant)
    (request : Request σ) :
    (∃ failure rulesets,
      engine.rulesetFor source now request = (.error failure, { engine with rulesets })) ∨
    ∃ ruleset rulesets,
      engine.rulesetFor source now request = (.ok ruleset, { engine with rulesets }) := by
  unfold rulesetFor
  cases request.carried with
  | some ruleset => exact .inr ⟨ruleset, engine.rulesets, rfl⟩
  | none =>
    unfold Engine.get
    dsimp only
    rcases engine.rulesets.get source
      ((engine.compilerFor (2 * engine.rulesets.asked)).compileAll now) request.uri
      with ⟨failure | loaded, rulesets⟩
    · exact .inl ⟨failure, rulesets, rfl⟩
    · exact .inr ⟨loaded.ruleset, rulesets, rfl⟩

theorem run_eq (ruleset : Ruleset σ) :
    engine.run ruleset request =
      match (ruleset.run engine.mode request.facts (.start request.result request.stopped)).run
        engine.session with
      | (.ok run, session) => (.ok ⟨run, ruleset⟩, { engine with session })
      | (.error failure, session) => (.error failure, { engine with session }) := by
  unfold run
  dsimp only
  rcases (ruleset.run engine.mode request.facts (.start request.result request.stopped)).run
    engine.session with ⟨_ | _, _⟩ <;> rfl

theorem run_effect (ruleset : Ruleset σ) :
    (engine.run ruleset request).1.map (fun report => report.run.effect) =
      ((ruleset.run engine.mode request.facts (.start request.result request.stopped)).run
        engine.session).1.map Run.effect := by
  rw [run_eq]
  rcases (ruleset.run engine.mode request.facts (.start request.result request.stopped)).run
    engine.session with ⟨_ | _, _⟩ <;> rfl

/-- What executing the request does, if it does not fail. -/
def effect (engine : Engine σ) (source : RuleSource) (now : Instant) (request : Request σ) :
    Except Failure (Outcome × List FiredRule) :=
  (engine.execute source now request).1.map fun report => report.run.effect

/-- A blind ruleset does the same in both modes. Failures that are skipped make no difference; a
failure that is propagated ends both runs, though it may be a different one. -/
theorem modes_agree {policy : FailurePolicy} (hpolicy : engine.handler = policy.handler)
    (hblind : ∀ ruleset, (engine.rulesetFor source now request).1 = .ok ruleset → ruleset.Blind) :
    (policy = .skip →
      (engine.inMode true).effect source now request =
        (engine.inMode false).effect source now request) ∧
    ((engine.inMode true).effect source now request).toOption =
      ((engine.inMode false).effect source now request).toOption := by
  unfold effect
  rw [execute_eq, execute_eq, rulesetFor_inMode, rulesetFor_inMode]
  rcases engine.rulesetFor_cases source now request with
    ⟨failure, rulesets, hfound⟩ | ⟨ruleset, rulesets, hfound⟩
  · rw [hfound]
    exact ⟨fun _ => rfl, rfl⟩
  · rw [hfound]
    dsimp only
    rw [run_effect, run_effect]
    have hmode : ∀ sequential, ({ engine with rulesets }.inMode sequential).mode =
        ⟨sequential, engine.settings.crossProduct, policy.handler⟩ :=
      fun sequential => congrArg (RunMode.mk sequential _) hpolicy
    rw [hmode, hmode]
    exact Ruleset.run_modes (hblind ruleset (congrArg Prod.fst hfound))
      engine.settings.crossProduct policy request.facts _ engine.session

/-- Collects the facts under one name, and then fails. -/
def collectThenFail : Ruleset Unit where
  rules := [{
    id := "collect"
    formula := .constant .yes
    actions := [
      ⟨"collect", ⟨fun _ arguments outcome =>
        (.ok (), { outcome with result := .array [.object arguments, outcome.result] })⟩,
        [("item", .reference ⟨.named "item", [], .any, "item"⟩)]⟩,
      ⟨"fail", ⟨fun _ _ outcome => (.error (.call "fail" ""), outcome)⟩, []⟩]
    attributes := []
    priority := 0
    facts := [⟨"item", "Item"⟩] }]
  factNames := [("item", "Item")]

def skippingEngine : Engine Unit :=
  .make .standard ⟨.standard, [], [], []⟩ (fun _ _ => "") .skip ()

def collectRequest : Request Unit where
  uri := ""
  facts := [⟨"Item", .ofNat 1⟩, ⟨"Item", .ofNat 2⟩]
  result := .null
  stopped := false
  carried := some collectThenFail

theorem collect_modes_agree :
    collectThenFail.Blind ∧
    (skippingEngine.inMode true).effect (fun _ => .ok none) ⟨0, 0⟩ collectRequest =
      (skippingEngine.inMode false).effect (fun _ => .ok none) ⟨0, 0⟩ collectRequest := by
  have hblind : collectThenFail.Blind := by
    refine List.forall_mem_singleton.mpr ?_
    simp [CompiledRule.Blind, CompiledRule.parts, Term.parts, Formula.parts, Term.partsOfParams,
      Term.Blind]
  have hpolicy : skippingEngine.handler = FailurePolicy.skip.handler := rfl
  refine ⟨hblind, (modes_agree hpolicy fun ruleset hruleset => ?_).1 rfl⟩
  cases hruleset
  exact hblind

end Engine
end Rulebook
