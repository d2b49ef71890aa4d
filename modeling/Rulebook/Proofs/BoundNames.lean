import Rulebook.Proofs.Acceptance
import Rulebook.Proofs.BuiltIn
import Rulebook.Proofs.Ranking
import Rulebook.Proofs.RuleEvaluations
import Rulebook.Proofs.Tuples

/-!
# Names that references stand for

A name that is bound to nothing counts as null, but no reference in a compiled rule comes to that.
The compiler refers to attributes and declared facts only, the rules of a ruleset agree on the types
of their names, a tuple binds a name to a fact of its type, and a run evaluates a rule only on tuples
that bind all its facts (`Compiler.references_bound`).
-/
namespace Rulebook

variable {σ : Type}

/-- The reference is what compiling makes of a name, with or without a path, in the rule. -/
def Rule.Refers (schemas : Schemas) (rule : Rule) (r : Reference) : Prop :=
  ∃ (scope : Scope) (name : String) (path : Option String),
    scope.Of schemas rule ∧ scope.reference name path = .ok r

/-- An operator makes a formula with the reference, which is no part of its operands. -/
def Vocabulary.Introduces (words : Vocabulary σ) (r : Reference) : Prop :=
  ∃ name rule operands formula, Table.get? words.operators name = some rule ∧
    rule.make operands = .ok formula ∧ .reference r ∈ (Term.formula formula).parts ∧
    ∀ operand ∈ operands, .reference r ∉ operand.parts

/-- The name stands for the value of the attribute with that name, if the rule has one, and
otherwise for the data of a fact of the type that the rule declares for the name. -/
def Rule.Gives (rule : Rule) (facts : List Fact) (name : String) (v : Json) : Prop :=
  (∃ entry ∈ rule.attributes, entry.name = name ∧ entry.value = v) ∨
    (∀ entry ∈ rule.attributes, entry.name ≠ name) ∧
      ∃ declared ∈ rule.facts, declared.name = name ∧
        ∃ fact ∈ facts, fact.typeName = declared.typeName ∧ fact.data = v

/-- A reference to a name follows its path from the value that the name stands for. -/
def Rule.Settles (rule : Rule) (facts : List Fact) (env : Environment) (r : Reference) : Prop :=
  ∀ name, r.base = .named name → ∃ v, rule.Gives facts name v ∧ env.get? name = some v ∧
    r.resolve env = r.path.resolve v

/-- The compiled rule comes from one of the rules, and what the compiler made of that rule's names
is settled in the environment. No other reference is in it unless an operator brings it along, and
the built-in ones bring none. -/
def Compiler.Settled (compiler : Compiler σ) (rules : List Rule) (facts : List Fact)
    (compiled : CompiledRule σ) (env : Environment) : Prop :=
  ∃ place, ∃ source ∈ rules, compiler.compile place source = .ok compiled ∧
    (∀ r, .reference r ∈ compiled.parts →
      source.Refers compiler.schemas r ∨ compiler.Introduces r) ∧
    (∀ r, source.Refers compiler.schemas r → source.Settles facts env r) ∧
    (compiler.operators.BuiltIn → ∀ r, .reference r ∈ compiled.parts → source.Settles facts env r)

namespace Vocabulary

variable {words : Vocabulary σ}

/-- The built-in operators bring no references of their own. -/
theorem not_introduces_of_builtIn (h : words.operators.BuiltIn) (r : Reference) :
    ¬ words.Introduces r := by
  rintro ⟨name, rule, operands, formula, hrule, hmake, hpart, hoperands⟩
  obtain ⟨language, operator, hoperator⟩ := h name rule hrule
  have hmakes := Operator.makes_of_make (hoperator ▸ hmake)
  have hother : ∀ part ∈ (Term.formula formula).parts, part ≠ .reference r := by
    refine hmakes.forall_parts ?_ (fun hsame => by cases hsame)
    rintro operand hoperand _ hmem rfl
    exact hoperands operand hoperand hmem
  exact hother _ hpart rfl

theorem yields_references {scope : Scope} {rule : Rule} (hscope : scope.Of words.schemas rule) :
    words.Yields scope fun part =>
      ∀ r, part = .reference r → rule.Refers words.schemas r ∨ words.Introduces r where
  constant := by
    intro place kind v t ht
    obtain ⟨shape, rfl⟩ := Scope.constant_eq ht
    rw [Term.parts, List.forall_mem_singleton]
    intro r hr
    cases hr
  list _ := by
    intro r hr
    cases hr
  reference hr := by
    intro r hsame
    cases hsame
    exact .inl ⟨scope, _, _, hscope, hr⟩
  call _ _ := by
    intro r hr
    cases hr
  operator := by
    rintro name operatorRule operands formula hrule hmake hoperands _ hpart r rfl
    by_cases hgiven : ∃ operand ∈ operands, .reference r ∈ operand.parts
    · obtain ⟨operand, hoperand, hmem⟩ := hgiven
      exact hoperands operand hoperand _ hmem r rfl
    · refine .inr ⟨name, operatorRule, operands, formula, hrule, hmake, hpart, ?_⟩
      exact fun operand hoperand hmem => hgiven ⟨operand, hoperand, hmem⟩
  truth _ := by
    intro r hr
    cases hr
  value _ := by
    intro r hr
    cases hr

end Vocabulary

theorem Environment.get?_of_attribute {env : Environment} {name : String} {v : Json}
    (h : Table.get? env.attributes name = some v) : env.get? name = some v := by
  rw [Environment.get?, h]
  rfl

namespace Compiler

variable {compiler : Compiler σ} {now : Instant} {kept rules : List Rule} {place : Nat}
  {source : Rule} {compiled : CompiledRule σ} {ruleset : Ruleset σ}

/-- All references of a compiled rule come from its expressions or from an operator. -/
theorem refers_of_compile (h : compiler.compile place source = .ok compiled) {r : Reference}
    (hr : .reference r ∈ compiled.parts) :
    source.Refers compiler.schemas r ∨ compiler.Introduces r := by
  obtain ⟨attributes, shapes, facts, hattributes, hfacts, hformula, hactions, -⟩ := compile_steps h
  have hyields := compiler.yields_references (Scope.of_tables hattributes hfacts)
  have hparts := CompiledRule.forall_parts.mpr
    ⟨hyields.of_predicate hformula, hyields.of_actionsFrom hactions⟩
  exact hparts _ hr r rfl

/-- Where a name is declared it is bound, on tuples that have the facts of the rule and draw them
from groups of the declared types. -/
theorem get?_of_declares (h : compiler.compile place source = .ok compiled) {names : FactNames}
    (hnames : names.Consistent) (hdeclared : source.declarations ⊆ names) {facts : List Fact}
    {tuple : Tuple} (htuple : tuple.DrawnFrom (FactGroup.ofFacts facts names))
    (happlies : compiled.appliesTo tuple = true) {name : String} {shape : Shape}
    (hname : source.Declares compiler.schemas (.named name) shape) (outcome : Outcome) :
    ∃ v, source.Gives facts name v ∧ (compiled.environment tuple outcome).get? name = some v := by
  obtain ⟨_, _, _, hattributes, -, -, -, -, rfl, hfacts⟩ := compile_steps h
  obtain ⟨hentries, hothers⟩ := attributeTables_spec hattributes
  rcases hname with ⟨entry, hentry, rfl, -⟩ | ⟨hnone, declared, hfact, rfl, -⟩
  · have hbound : Table.get? compiled.attributes entry.name = some entry.value :=
      (hentries entry hentry).2.2.1
    exact ⟨entry.value, .inl ⟨entry, hentry, rfl, rfl⟩, Environment.get?_of_attribute hbound⟩
  · rw [CompiledRule.appliesTo, hfacts, List.all_eq_true] at happlies
    obtain ⟨data, hdata⟩ := Option.isSome_iff_exists.mp (happlies declared hfact)
    obtain ⟨group, hgroup, hgroupName, hmem⟩ := htuple declared.name data hdata
    obtain ⟨typeName, hentry, hinstances⟩ := FactGroup.of_mem_ofFacts hgroup
    obtain ⟨fact, hinput, htype, rfl⟩ := hinstances data hmem
    have hsame : typeName = declared.typeName :=
      hnames _ hentry _ (hdeclared (List.mem_map.mpr ⟨declared, hfact, rfl⟩)) hgroupName
    refine ⟨fact.data, .inr ⟨hnone, declared, hfact, rfl, fact, hinput, htype.trans hsame, rfl⟩, ?_⟩
    rw [Environment.get?, CompiledRule.environment, (hothers declared.name hnone).1, hdata]
    rfl

theorem settles_of_refers (h : compiler.compile place source = .ok compiled) {names : FactNames}
    (hnames : names.Consistent) (hdeclared : source.declarations ⊆ names) {facts : List Fact}
    {tuple : Tuple} (htuple : tuple.DrawnFrom (FactGroup.ofFacts facts names))
    (happlies : compiled.appliesTo tuple = true) {r : Reference}
    (hrefers : source.Refers compiler.schemas r) (outcome : Outcome) :
    source.Settles facts (compiled.environment tuple outcome) r := by
  obtain ⟨scope, written, path, hscope, hr⟩ := hrefers
  intro name hbase
  obtain ⟨shape, hname, -⟩ := hscope.declares_reference hr
  rw [hbase] at hname
  obtain ⟨v, hgives, hbound⟩ :=
    get?_of_declares h hnames hdeclared htuple happlies hname outcome
  refine ⟨v, hgives, hbound, ?_⟩
  rw [Reference.resolve, hbase, Reference.Base.value, hbound, Option.getD_some]

theorem Loads.exists_source (h : compiler.Loads kept ruleset) (hrule : compiled ∈ ruleset.rules) :
    ∃ place source, source ∈ kept ∧ compiler.compile place source = .ok compiled := by
  have hmem : Except.ok compiled ∈ kept.mapIdx compiler.compile :=
    h.rules ▸ List.mem_map.mpr ⟨compiled, hrule, rfl⟩
  obtain ⟨place, hplace, hcompiled⟩ := List.mem_mapIdx.mp hmem
  exact ⟨place, kept[place], List.getElem_mem hplace, hcompiled⟩

theorem Loads.declarations_subset (h : compiler.Loads kept ruleset) (hsource : source ∈ kept) :
    source.declarations ⊆ ruleset.factNames := by
  rw [h.factNames]
  exact fun entry hentry => List.mem_eraseDups.mpr (List.mem_flatMap.mpr ⟨source, hsource, hentry⟩)

theorem mem_of_mem_foldl_keep {rule : Rule}
    (h : rule ∈ rules.foldl (compiler.keep now) kept) : rule ∈ kept ∨ rule ∈ rules := by
  induction rules generalizing kept with
  | nil => exact .inl h
  | cons first rest ih =>
    rcases ih h with hkept | hrest
    · unfold keep at hkept
      split at hkept
      · rcases List.mem_append.mp hkept with hkept | hfirst
        · exact .inl hkept
        · exact .inr (List.mem_singleton.mp hfirst ▸ List.mem_cons_self)
      · exact .inl hkept
    · exact .inr (List.mem_cons_of_mem first hrest)

/-- On every tuple on which a rule of a compiled ruleset may be evaluated, all its references are
settled. -/
theorem settled_of_evaluates (hcompile : compiler.compileAll now rules = .ok ruleset)
    {crossProduct : Bool} {facts : List Fact} {tuple : Tuple}
    (hevaluates : ruleset.Evaluates crossProduct facts compiled tuple) (outcome : Outcome) :
    compiler.Settled rules facts compiled (compiled.environment tuple outcome) := by
  have hloads := compileAll_loads hcompile
  have hcoherent := (compiler.coherent_nil now).foldl_keep (ranked rules)
  have hnames : FactNames.Consistent ruleset.factNames :=
    hloads.factNames ▸ hcoherent.consistent.eraseDups
  obtain ⟨place, source, hkept, hsource⟩ := hloads.exists_source hevaluates.rule_mem
  have hranked : source ∈ ranked rules := (mem_of_mem_foldl_keep hkept).resolve_left (by simp)
  have hrules : source ∈ rules :=
    (List.mem_filter.mp ((ranked_ranks rules).mem_iff.mp hranked)).1
  obtain ⟨generator, hmake, htuple⟩ := hevaluates.drawn
  have hdrawn := (TupleGenerator.within_of_make hmake).tuples tuple htuple
  have hparts : ∀ r, .reference r ∈ compiled.parts →
      source.Refers compiler.schemas r ∨ compiler.Introduces r := fun r hr =>
    refers_of_compile hsource hr
  have hsettles : ∀ r, source.Refers compiler.schemas r →
      source.Settles facts (compiled.environment tuple outcome) r := fun r hr =>
    settles_of_refers hsource hnames (hloads.declarations_subset hkept) hdrawn
      hevaluates.applies hr outcome
  refine ⟨place, source, hrules, hsource, hparts, hsettles, fun hbuiltIn r hr => ?_⟩
  exact hsettles r
    ((hparts r hr).resolve_right (Vocabulary.not_introduces_of_builtIn hbuiltIn r))

/-- A request on a compiled ruleset evaluates rules only where all names that they refer to are
bound: to their attributes, and otherwise to facts of the types that they declare themselves. -/
theorem references_bound {engine : Engine σ} {store : RuleSource} {asked : Instant}
    {request : Request σ} (hcompile : compiler.compileAll now rules = .ok ruleset)
    (hfound : (engine.rulesetFor store asked request).1 = .ok ruleset) :
    engine.EvaluatesOnly store asked request (compiler.Settled rules request.facts) := by
  refine (Engine.evaluatesOnly_of_found hfound).mono ?_
  rintro rule env ⟨tuple, outcome, hevaluates, rfl⟩
  exact settled_of_evaluates hcompile hevaluates outcome

/-- A compiler that leaves out what does not compile, and knows no types of facts. -/
def binCompiler : Compiler Unit where
  operators := .standard
  functions := []
  actions := []
  schemas := []
  strict := false
  checksDates := false
  anonymous := toString

/-- The items of a bin must be fewer than the limit, unless the bin is open. -/
def binRule : Rule where
  attributes := [⟨"ruleName", .string, .string "bin"⟩, ⟨"limit", .integer, .ofNat 3⟩]
  facts := [⟨"item", "Item"⟩, ⟨"bin", "Bin"⟩]
  predicate := .or [.operator "is-true" [.field "bin" "open"],
    .operator "less" [.field "item" "count", .name "limit"]]
  actions := []

/-- Declares the name of the bins for items. -/
def clashingRule : Rule where
  attributes := [⟨"ruleName", .string, .string "clash"⟩]
  facts := [⟨"bin", "Item"⟩]
  predicate := .field "bin" "open"
  actions := []

def binCompiled : CompiledRule Unit where
  id := "bin"
  formula := .or [
    .formula (.check .isTrue (.reference ⟨.named "bin", [⟨"open", false⟩], .any, "bin.open"⟩)),
    .formula (.relation .less (.reference ⟨.named "item", [⟨"count", false⟩], .any, "item.count"⟩)
      (.reference ⟨.named "limit", [], .integer, "limit"⟩))]
  actions := []
  attributes := [("limit", .ofNat 3), ("ruleName", .string "bin")]
  priority := 0
  facts := [⟨"item", "Item"⟩, ⟨"bin", "Bin"⟩]

def binRuleset : Ruleset Unit := ⟨[binCompiled], [("item", "Item"), ("bin", "Bin")]⟩

def binEngine : Engine Unit :=
  .make { Settings.standard with crossProduct := true } ⟨.standard, [], [], []⟩ (fun _ _ => "")
    .skip ()

/-- Two items and a bin. -/
def binRequest : Request Unit where
  uri := ""
  facts := [⟨"Item", .ofNat 1⟩, ⟨"Bin", .ofNat 2⟩, ⟨"Item", .ofNat 3⟩]
  result := .null
  stopped := false
  carried := some binRuleset

/-- The rule for bins is evaluated, and all its references are settled when it is. -/
theorem binRule_bound :
    binCompiler.compileAll ⟨0, 0⟩ [binRule, clashingRule] = .ok binRuleset ∧
    (binEngine.rulesetFor (fun _ => .ok none) ⟨0, 0⟩ binRequest).1 = .ok binRuleset ∧
    ¬ binEngine.EvaluatesOnly (fun _ => .ok none) ⟨0, 0⟩ binRequest (fun _ _ => False) ∧
    binEngine.EvaluatesOnly (fun _ => .ok none) ⟨0, 0⟩ binRequest
      (binCompiler.Settled [binRule, clashingRule] binRequest.facts) := by
  have hranked : ranked [binRule, clashingRule] = [binRule, clashingRule] :=
    (ranked_ranks _).unique ⟨List.pairwise_pair.mpr (Int.le_refl 0), fun _ => rfl⟩
  have hbin : binCompiler.compile 0 binRule = .ok binCompiled := by
    have hid : binCompiler.ruleId 0 binRule = "bin" := rfl
    simp only [compile, hid]
    rfl
  have haccept : binCompiler.accept ⟨0, 0⟩ .empty binRule = .ok binRuleset := by
    rw [accept_of_inForce (fun hdates => by cases hdates), Ruleset.empty, List.length_nil, hbin]
    rfl
  obtain ⟨failure, hclash⟩ : ∃ failure,
      binCompiler.accept ⟨0, 0⟩ binRuleset clashingRule = .error failure := ⟨_, rfl⟩
  have hcompile : binCompiler.compileAll ⟨0, 0⟩ [binRule, clashingRule] = .ok binRuleset := by
    simp only [compileAll, hranked, acceptAll, haccept, hclash]
    rfl
  refine ⟨hcompile, rfl, fun hnever => ?_, references_bound hcompile rfl⟩
  have hsame := hnever (fun _ _ => throw (.call "bin" "")) fun _ _ h => h.elim
  have hskipped := congrArg (fun done => done.1.map fun report => report.run.skipped.length) hsame
  cases hskipped

end Compiler
end Rulebook
