import Mathlib.Data.List.Forall2
import Rulebook.Proofs.Blame
import Rulebook.Proofs.Placeholders

/-!
# References written as placeholders

A reference and the placeholder that is written for it are one thing to the compiler, wherever they
stand and whatever the placeholder is declared as. So references may be written as placeholders, some
of them or all: the rule is compiled to the same, or the same is wrong with it.
-/
namespace Rulebook

open Reference (spelling)

/-- The reference can be written in a placeholder: its name ends at the first point, and the text is
not empty and has no braces and dollar signs. -/
structure Reference.IsSpelled (name : String) (path : Option String) : Prop where
  name_ends : '.' ∉ name.toList
  ne_nil : spelling name path ≠ []
  plain : '\x7b' ∉ spelling name path ∧ '\x7d' ∉ spelling name path ∧ '$' ∉ spelling name path

/-- Some references are written as placeholders, at whatever depth. -/
inductive Expression.WrittenAs : Expression → Expression → Prop where
  | same (e : Expression) : WrittenAs e e
  | placeholder {name : String} {path : Option String} (kind : Option Kind) :
      Reference.IsSpelled name path →
      WrittenAs (.reference name path)
        (.value kind (.string (String.ofList ('$' :: '\x7b' :: spelling name path ++ ['\x7d']))))
  | values {items items' : List Expression} : List.Forall₂ WrittenAs items items' →
      WrittenAs (.values items) (.values items')
  | operator {operands operands' : List Expression} (name : String) :
      List.Forall₂ WrittenAs operands operands' →
      WrittenAs (.operator name operands) (.operator name operands')
  | function {params params' : List (String × Expression)} (name : String) :
      params.map Prod.fst = params'.map Prod.fst →
      List.Forall₂ WrittenAs (params.map Prod.snd) (params'.map Prod.snd) →
      WrittenAs (.function name params) (.function name params')

/-- The same action with the same parameters, some references among them written as placeholders. -/
structure ActionCall.WrittenAs (call call' : ActionCall) : Prop where
  name : call.name = call'.name
  names : call.params.map Prod.fst = call'.params.map Prod.fst
  values : List.Forall₂ Expression.WrittenAs (call.params.map Prod.snd) (call'.params.map Prod.snd)

/-- The same rule but for references that are written as placeholders, in the predicate and in the
actions. -/
structure Rule.WrittenAs (rule rule' : Rule) : Prop where
  attributes : rule.attributes = rule'.attributes
  facts : rule.facts = rule'.facts
  predicate : rule.predicate.WrittenAs rule'.predicate
  actions : List.Forall₂ ActionCall.WrittenAs rule.actions rule'.actions

theorem Reference.IsSpelled.placeholder? {name : String} {path : Option String}
    (h : IsSpelled name path) :
    Rulebook.placeholder?
        (.string (String.ofList ('$' :: '\x7b' :: spelling name path ++ ['\x7d']))) =
      some (spelling name path) :=
  placeholder?_eq_some h.ne_nil h.plain

namespace Vocabulary

variable {σ : Type} (words : Vocabulary σ) (scope : Scope)

/-- The placeholder is the term that the reference is. -/
theorem term_placeholder {name : String} {path : Option String}
    (h : Reference.IsSpelled name path) (place : String) (kind : Option Kind) :
    words.term scope place
        (.value kind (.string (String.ofList ('$' :: '\x7b' :: spelling name path ++ ['\x7d'])))) =
      words.term scope place (.reference name path) := by
  rw [term_of_placeholder h.placeholder?, splitReference_spelling path h.name_ends, term.eq_def]

mutual

theorem term_written (place : String) : ∀ {e e' : Expression}, e.WrittenAs e' →
    words.term scope place e' = words.term scope place e
  | .value _ _, _, h => by
    cases h
    rfl
  | .values items, _, h => by
    cases h with
    | same => rfl
    | values hitems =>
      rw [term.eq_def, term.eq_def]
      dsimp only
      rw [terms_written place 0 hitems]
  | .operator name operands, _, h => by
    cases h with
    | same => rfl
    | operator _ hoperands =>
      rw [term.eq_def, term.eq_def]
      dsimp only
      rw [terms_written (place ++ "." ++ name) 0 hoperands]
  | .function name params, _, h => by
    cases h with
    | same => rfl
    | function _ hnames hvalues =>
      rw [term.eq_def, term.eq_def]
      dsimp only
      rw [parameters_written (place ++ "." ++ name) [] hnames hvalues]
  | .reference name path, _, h => by
    cases h with
    | same => rfl
    -- Here alone the two expressions differ; all other cases pass to their parts.
    | placeholder kind hspelled => exact words.term_placeholder scope hspelled place kind

theorem terms_written (place : String) (index : Nat) : ∀ {items items' : List Expression},
    List.Forall₂ Expression.WrittenAs items items' →
    words.terms scope place index items' = words.terms scope place index items
  | [], _, h => by
    cases h
    rfl
  | item :: rest, _, h => by
    cases h with
    | cons hitem hrest =>
      rw [terms.eq_def, terms.eq_def]
      dsimp only
      rw [term_written _ hitem, terms_written place (index + 1) hrest]

theorem parameters_written (place : String) (seen : List String) :
    ∀ {params params' : List (String × Expression)},
      params.map Prod.fst = params'.map Prod.fst →
      List.Forall₂ Expression.WrittenAs (params.map Prod.snd) (params'.map Prod.snd) →
      words.parameters scope place seen params' = words.parameters scope place seen params
  | [], [], _, _ => rfl
  | [], _ :: _, hnames, _ => nomatch hnames
  | _ :: _, [], hnames, _ => nomatch hnames
  | (name, v) :: rest, (name', v') :: rest', hnames, hvalues => by
    obtain ⟨hname, hrest⟩ := List.cons.inj hnames
    obtain rfl : name = name' := hname
    obtain ⟨hv, hothers⟩ := List.forall₂_cons.mp hvalues
    rw [parameters.eq_def, parameters.eq_def]
    dsimp only
    rw [term_written _ hv, parameters_written place (name :: seen) hrest hothers]

end

theorem predicate_written (place : String) {e e' : Expression} (h : e.WrittenAs e') :
    words.predicate scope place e' = words.predicate scope place e := by
  have hterm := words.term_written scope place h
  cases h with
  | same => rfl
  | placeholder kind hspelled =>
    rw [predicate_of_placeholder hspelled.placeholder?, hterm]
    rfl
  | values _ => rfl
  | operator _ _ | function _ _ _ =>
    unfold predicate
    dsimp only
    rw [hterm]

theorem actionsFrom_written {calls calls' : List ActionCall}
    (h : List.Forall₂ ActionCall.WrittenAs calls calls') (index : Nat) :
    words.actionsFrom scope index calls' = words.actionsFrom scope index calls := by
  induction h generalizing index with
  | nil => rfl
  | cons hcall _ ih =>
    unfold actionsFrom
    dsimp only
    rw [hcall.name, words.parameters_written scope _ [] hcall.names hcall.values, ih (index + 1)]

end Vocabulary

namespace Compiler

variable {σ : Type} {rule rule' : Rule}

theorem ruleId_written (h : rule.WrittenAs rule') (compiler : Compiler σ) (place : Nat) :
    compiler.ruleId place rule' = compiler.ruleId place rule := by
  unfold ruleId Rule.name? Rule.attribute?
  rw [h.attributes]

theorem compile_written (h : rule.WrittenAs rule') (compiler : Compiler σ) (place : Nat) :
    compiler.compile place rule' = compiler.compile place rule := by
  have hpriority : rule'.priority = rule.priority := by
    unfold Rule.priority Rule.attribute?
    rw [h.attributes]
  unfold compile
  rw [ruleId_written h, hpriority, ← h.attributes, ← h.facts]
  simp only [compiler.predicate_written _ _ h.predicate, compiler.actionsFrom_written _ h.actions]

/-- A rule whose references are in part written as placeholders compiles to the same, or the same is
wrong with it. Where rules without names are called otherwise, or the rule stands elsewhere, only what
it is called by differs. -/
theorem references_interchangeable (h : rule.WrittenAs rule') (compiler : Compiler σ) :
    (∀ place, compiler.compile place rule' = compiler.compile place rule) ∧
    ∀ (anonymous : Nat → String) (place place' : Nat),
      Renamed (compiler.ruleId place rule) ({ compiler with anonymous }.ruleId place' rule')
        (fun compiled compiled' =>
          compiled' = { compiled with id := { compiler with anonymous }.ruleId place' rule' })
        (compiler.compile place rule) ({ compiler with anonymous }.compile place' rule') := by
  refine ⟨compile_written h compiler, fun anonymous place place' => ?_⟩
  have hid : { compiler with anonymous }.ruleId place' rule' =
      { compiler with anonymous }.ruleId place' rule := ruleId_written h _ place'
  rw [hid, compile_written h]
  exact compiler.renamed_compile { compiler with anonymous } rfl place place' rule

/-- A vocabulary with the standard operators, one type of facts and one action. -/
def flightWords : Vocabulary Unit where
  operators := .standard
  functions := []
  actions := [("record", ⟨fun _ _ outcome => (.ok (), outcome)⟩)]
  schemas := [("Airline", .record [("active", .boolean), ("fleet", .list .string)])]

def flightCompiler : Compiler Unit :=
  { flightWords with strict := true, checksDates := false, anonymous := fun _ => "" }

/-- A rule that refers to an airline twice and to its own name twice. -/
def flightRule (active ruleName : Expression) : Rule :=
  ((Rule.ofName "flight" (.and [active,
      .operator "contains" [.field "airline" "fleet", .values [ruleName]]])).withFact
    ⟨"airline", "Airline"⟩).withAction ⟨"record", [("rule", ruleName)]⟩

def referringRule : Rule := flightRule (.field "airline" "active") (.name "ruleName")

/-- All references but one are placeholders. -/
def placeholdingRule : Rule :=
  flightRule (.placeholder "airline.active") (.placeholder "ruleName")

theorem placeholdingRule_interchangeable :
    referringRule.WrittenAs placeholdingRule ∧
    (flightCompiler.compile 0 referringRule).isOk = true ∧
    (∀ place, flightCompiler.compile place placeholdingRule =
      flightCompiler.compile place referringRule) ∧
    ∀ (anonymous : Nat → String) (place place' : Nat),
      Renamed (flightCompiler.ruleId place referringRule)
        ({ flightCompiler with anonymous }.ruleId place' placeholdingRule)
        (fun compiled compiled' => compiled' =
          { compiled with id := { flightCompiler with anonymous }.ruleId place' placeholdingRule })
        (flightCompiler.compile place referringRule)
        ({ flightCompiler with anonymous }.compile place' placeholdingRule) := by
  have hactive : Expression.WrittenAs (.field "airline" "active") (.placeholder "airline.active") :=
    .placeholder _ ⟨by decide, by decide, by decide⟩
  have hname : Expression.WrittenAs (.name "ruleName") (.placeholder "ruleName") :=
    .placeholder _ ⟨by decide, by decide, by decide⟩
  have hnames : Expression.WrittenAs (.values [.name "ruleName"])
      (.values [.placeholder "ruleName"]) := .values (.cons hname .nil)
  have hpredicate : referringRule.predicate.WrittenAs placeholdingRule.predicate :=
    .operator "and" (.cons hactive
      (.cons (.operator "contains" (.cons (.same _) (.cons hnames .nil))) .nil))
  have hwritten : referringRule.WrittenAs placeholdingRule :=
    ⟨rfl, rfl, hpredicate, .cons ⟨rfl, rfl, .cons hname .nil⟩ .nil⟩
  exact ⟨hwritten, rfl, references_interchangeable hwritten flightCompiler⟩

end Compiler
end Rulebook
