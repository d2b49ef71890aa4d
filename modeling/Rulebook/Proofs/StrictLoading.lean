import Rulebook.Proofs.Acceptance
import Rulebook.Proofs.Blame
import Rulebook.Proofs.Ranking

/-!
# Strict loading

A strict compiler stops at the first rule that has something wrong with it. `Compiler.Offends` says
what that can be, without the run: a rule is held against the rules that stand before it and are valid
now. `strict_blames_first` says that the compiler fails just if some rule offends, and that the failure
names the first rule of the ranking that does.
-/
namespace Rulebook.Compiler

variable {σ : Type} {compiler : Compiler σ} {now : Instant} {before ordered rules : List Rule}
  {rule : Rule} {ruleset : Ruleset σ} {failure : Failure}

/-- What is wrong with a rule: its dates cannot be read, or it is valid now, and does not compile or
declares a fact name with another type than a rule before it that is valid too. -/
inductive Offends (compiler : Compiler σ) (now : Instant) (before : List Rule) (rule : Rule) :
    Prop where
  | dates {failure : Failure} : compiler.checksDates = true → rule.isValidAt now = .error failure →
      Offends compiler now before rule
  | itself : compiler.InForce now rule → ¬ compiler.Compiles rule → Offends compiler now before rule
  | names {other : Rule} : compiler.InForce now rule → other ∈ before →
      compiler.InForce now other → ¬ rule.AgreesWith other → Offends compiler now before rule

/-- No rule of the list offends. -/
def Clean (compiler : Compiler σ) (now : Instant) (ordered : List Rule) : Prop :=
  ∀ before rule after, ordered = before ++ rule :: after → ¬ compiler.Offends now before rule

/-- The rule offends, and no rule before it does. -/
def OffendsFirst (compiler : Compiler σ) (now : Instant) (ordered : List Rule) (rule : Rule) : Prop :=
  ∃ before after, ordered = before ++ rule :: after ∧ compiler.Offends now before rule ∧
    compiler.Clean now before

theorem clean_nil (compiler : Compiler σ) (now : Instant) : compiler.Clean now [] := by
  intro before rule after h
  cases before <;> cases h

theorem Clean.concat (h : compiler.Clean now before) (hrule : ¬ compiler.Offends now before rule) :
    compiler.Clean now (before ++ [rule]) := by
  intro earlier other later hsplit
  rcases List.eq_nil_or_concat later with rfl | ⟨between, last, rfl⟩
  · obtain ⟨rfl, hlast⟩ := List.append_inj' hsplit rfl
    cases hlast
    exact hrule
  · rw [List.concat_eq_append, ← List.cons_append, ← List.append_assoc] at hsplit
    exact h earlier other between (List.append_inj' hsplit rfl).1

/-- The rules that are valid now. -/
def current (compiler : Compiler σ) (now : Instant) (before : List Rule) : List Rule :=
  before.filter fun rule => compiler.InForce now rule

theorem current_concat (hinForce : compiler.InForce now rule) :
    compiler.current now (before ++ [rule]) = compiler.current now before ++ [rule] := by
  simp [current, hinForce]

theorem current_concat_of_not (hinForce : ¬ compiler.InForce now rule) :
    compiler.current now (before ++ [rule]) = compiler.current now before := by
  simp [current, hinForce]

/-- Where no rule before it offends, a rule that is valid now is admitted unless it offends. -/
theorem admits_current_iff (hinForce : compiler.InForce now rule) :
    compiler.Admits now (compiler.current now before) rule ↔ ¬ compiler.Offends now before rule := by
  constructor
  · rintro ⟨-, hcompiles, hagrees⟩ hoffends
    cases hoffends with
    | dates hdates hvalid => cases hvalid.symm.trans (hinForce hdates)
    | itself _ hnot => exact hnot hcompiles
    | names _ hother hcurrent hnot =>
      exact hnot (hagrees _ (List.mem_filter.mpr ⟨hother, decide_eq_true hcurrent⟩))
  · intro hnot
    refine ⟨hinForce, ?_, fun other hother => ?_⟩
    · by_contra hcompiles
      exact hnot (.itself hinForce hcompiles)
    · obtain ⟨hmem, hcurrent⟩ := List.mem_filter.mp hother
      by_contra hagrees
      exact hnot (.names hinForce hmem (of_decide_eq_true hcurrent) hagrees)

/-- A ruleset that has loaded the valid rules before refuses a rule just if it offends, and goes on
with the rule if it is valid. -/
theorem accept_cases (h : compiler.Loads (compiler.current now before) ruleset)
    (hcoherent : compiler.Coherent now (compiler.current now before)) (rule : Rule) :
    (compiler.Offends now before rule ∧
        ∃ failure, compiler.accept now ruleset rule = .error failure) ∨
      ¬ compiler.Offends now before rule ∧
        ∃ after, compiler.accept now ruleset rule = .ok after ∧
          compiler.Loads (compiler.current now (before ++ [rule])) after ∧
          compiler.Coherent now (compiler.current now (before ++ [rule])) := by
  by_cases hinForce : compiler.InForce now rule
  · rw [current_concat hinForce]
    by_cases hoffends : compiler.Offends now before rule
    · refine .inl ⟨hoffends, h.refuse hcoherent hinForce fun hadmits => ?_⟩
      exact (admits_current_iff hinForce).mp hadmits hoffends
    · have hadmits := (admits_current_iff hinForce).mpr hoffends
      obtain ⟨after, haccept, hloads⟩ := h.accept hcoherent hadmits
      exact .inr ⟨hoffends, after, haccept, hloads, hcoherent.concat hadmits⟩
  · -- Nothing but its dates is wrong with a rule that is not valid now.
    rw [current_concat_of_not hinForce]
    rcases accept_of_not_inForce hinForce ruleset with
      ⟨hvalid, haccept⟩ | ⟨hdates, failure, hvalid, haccept⟩
    · refine .inr ⟨fun hoffends => ?_, ruleset, haccept, h, hcoherent⟩
      cases hoffends with
      | dates _ hfailure => cases hvalid.symm.trans hfailure
      | itself hcurrent _ | names hcurrent _ _ _ => exact hinForce hcurrent
    · exact .inl ⟨.dates hdates hvalid, failure, haccept⟩

/-- The failure names the rule that is refused. -/
theorem ruleId_of_accept (h : compiler.accept now ruleset rule = .error failure) {name : String}
    (hname : rule.name? = some name) (hnonempty : name ≠ "") : failure.ruleId? = rule.name? := by
  have hid : compiler.ruleId ruleset.rules.length rule = name := by
    simp [ruleId, hname, hnonempty]
  by_cases hinForce : compiler.InForce now rule
  · rw [accept_of_inForce hinForce] at h
    rcases error_of_bind h with hcompiled | ⟨compiled, hcompiled, h⟩
    · rw [ruleId_of_compile hcompiled, hid, hname]
    · obtain ⟨_, _, _, -, -, -, -, hcalled, -⟩ := compile_steps hcompiled
      rcases error_of_bind h with hclash | ⟨names, -, h⟩
      · rw [ruleId_of_declareFacts hclash, hcalled, hid, hname]
      · cases h
  · rcases accept_of_not_inForce hinForce ruleset with
      ⟨-, haccept⟩ | ⟨-, fault, hvalid, haccept⟩
    · cases haccept.symm.trans h
    · cases haccept.symm.trans h
      rw [Rule.ruleId_of_isValidAt hvalid, hname]
      rfl

/-- A strict run goes through if no rule offends. Otherwise it ends at the first one that does. -/
theorem acceptAll_stops (hstrict : compiler.strict = true)
    (hloads : compiler.Loads (compiler.current now before) ruleset)
    (hcoherent : compiler.Coherent now (compiler.current now before))
    (hclean : compiler.Clean now before)
    (hnamed : ∀ rule ∈ rules, ∃ name, rule.name? = some name ∧ name ≠ "") :
    (∃ after, compiler.acceptAll now ruleset rules = .ok after ∧
        compiler.Clean now (before ++ rules)) ∨
      ∃ failure, compiler.acceptAll now ruleset rules = .error failure ∧
        ∃ rule, compiler.OffendsFirst now (before ++ rules) rule ∧
          failure.ruleId? = rule.name? := by
  -- The rules go over to `before` one by one; up to there none offends and the valid ones are loaded.
  induction rules generalizing before ruleset with
  | nil => exact .inl ⟨ruleset, rfl, by rwa [List.append_nil]⟩
  | cons rule rest ih =>
    obtain ⟨⟨name, hname, hnonempty⟩, hrest⟩ := List.forall_mem_cons.mp hnamed
    unfold acceptAll
    rcases accept_cases hloads hcoherent rule with
      ⟨hoffends, failure, haccept⟩ | ⟨hinnocent, after, haccept, hloads, hcoherent⟩
    · rw [haccept]
      dsimp only
      rw [if_pos hstrict]
      exact .inr ⟨failure, rfl, rule, ⟨before, rest, rfl, hoffends, hclean⟩,
        ruleId_of_accept haccept hname hnonempty⟩
    · rw [haccept, List.append_cons]
      exact ih hloads hcoherent (hclean.concat hinnocent) hrest

/-- A strict compiler fails just if some rule of the ranking offends. The failure is one of a rule,
and names the first rule that offends. -/
theorem strict_blames_first (hstrict : compiler.strict = true) (now : Instant)
    (hnamed : ∀ rule ∈ rules, ∃ name, rule.name? = some name ∧ name ≠ "") :
    ∃ ordered, Rule.Ranks ordered (rules.filter fun rule => !rule.isIgnored) ∧
      ((∃ failure, compiler.compileAll now rules = .error failure) ↔
        ∃ before rule after, ordered = before ++ rule :: after ∧
          compiler.Offends now before rule) ∧
      ∀ failure, compiler.compileAll now rules = .error failure → failure.isOfRule = true ∧
        ∃ rule, compiler.OffendsFirst now ordered rule ∧ failure.ruleId? = rule.name? := by
  have hranks := ranked_ranks rules
  have hrankedNamed : ∀ rule ∈ ranked rules, ∃ name, rule.name? = some name ∧ name ≠ "" :=
    fun rule hrule => hnamed rule (List.mem_filter.mp (hranks.mem_iff.mp hrule)).1
  have hloads : compiler.Loads (compiler.current now []) .empty := compiler.loads_empty
  have hcoherent : compiler.Coherent now (compiler.current now []) := compiler.coherent_nil now
  refine ⟨ranked rules, hranks, ?_⟩
  unfold compileAll
  rcases acceptAll_stops hstrict hloads hcoherent (compiler.clean_nil now) hrankedNamed with
    ⟨after, hafter, hclean⟩ | ⟨failure, hfailure, rule, hfirst, hblamed⟩
  · rw [hafter]
    refine ⟨⟨?_, ?_⟩, ?_⟩
    · rintro ⟨failure, hfailure⟩
      cases hfailure
    · rintro ⟨before, rule, rest, hsplit, hoffends⟩
      exact absurd hoffends (hclean before rule rest hsplit)
    · rintro failure hfailure
      cases hfailure
  · rw [hfailure]
    refine ⟨⟨fun _ => ?_, fun _ => ⟨failure, rfl⟩⟩, ?_⟩
    · obtain ⟨before, rest, hsplit, hoffends, -⟩ := hfirst
      exact ⟨before, rule, rest, hsplit, hoffends⟩
    · rintro _ ⟨⟩
      have hrule : rule ∈ ranked rules := by
        obtain ⟨before, rest, hsplit, -⟩ := hfirst
        rw [List.nil_append] at hsplit
        rw [hsplit]
        exact List.mem_append_right _ List.mem_cons_self
      obtain ⟨name, hname, -⟩ := hrankedNamed rule hrule
      refine ⟨?_, rule, hfirst, hblamed⟩
      rw [failure.isOfRule_eq, hblamed, hname]
      rfl

/-- A strict compiler of rules that name nothing, which looks at their dates. -/
def datingCompiler : Compiler Unit where
  operators := []
  functions := []
  actions := []
  schemas := []
  strict := true
  checksDates := true
  anonymous := toString

/-- A rule whose predicate is no truth value. -/
def truthlessRule (name : String) (priority : Nat) : Rule :=
  (Rule.ofName name (.value none (.ofNat 42))).withAttribute
    ⟨"priority", .integer, .ofNat priority⟩

def endlessRule : Rule :=
  (truthlessRule "endless" 2).withAttribute ⟨"expireDate", .string, .string "tomorrow"⟩

def expiredRule : Rule :=
  (truthlessRule "expired" 3).withAttribute ⟨"expireDate", .string, .string "2020-01-01"⟩

/-- The last rule is ranked first and has expired, so nothing is wrong with it. -/
def endlessBeforeExpired : List Rule :=
  [truthlessRule "low" 1, endlessRule, expiredRule]

theorem endless_blamed :
    datingCompiler.compileAll ⟨1717200000, 0⟩ endlessBeforeExpired =
      .error (.rule "endless" (.unreadableDate "expireDate" "tomorrow")) ∧
    ∃ ordered, Rule.Ranks ordered (endlessBeforeExpired.filter fun rule => !rule.isIgnored) ∧
      ((∃ failure, datingCompiler.compileAll ⟨1717200000, 0⟩ endlessBeforeExpired =
          .error failure) ↔
        ∃ before rule after, ordered = before ++ rule :: after ∧
          datingCompiler.Offends ⟨1717200000, 0⟩ before rule) ∧
      ∀ failure, datingCompiler.compileAll ⟨1717200000, 0⟩ endlessBeforeExpired = .error failure →
        failure.isOfRule = true ∧
          ∃ rule, datingCompiler.OffendsFirst ⟨1717200000, 0⟩ ordered rule ∧
            failure.ruleId? = rule.name? := by
  have hranked : ranked endlessBeforeExpired = endlessBeforeExpired.reverse :=
    (ranked_ranks _).unique (.of_perm (List.reverse_perm _) (by decide))
  refine ⟨?_, strict_blames_first rfl _ ?_⟩
  · rw [compileAll, hranked]
    rfl
  · simp only [endlessBeforeExpired, List.forall_mem_cons]
    exact ⟨⟨"low", rfl, by decide⟩, ⟨"endless", rfl, by decide⟩, ⟨"expired", rfl, by decide⟩,
      List.forall_mem_nil _⟩

end Rulebook.Compiler
