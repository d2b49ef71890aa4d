import Rulebook.Proofs.Evaluation
import Rulebook.Compiler

/-!
# Failures of rules

Whatever is wrong with a rule, the failure names the rule, and names it only: a rule that is called
otherwise fails at the same step with the same to say. `Renamed` relates what is made under two names,
and each step of the compiler keeps it.
-/
namespace Rulebook

namespace Failure

/-- The rule that the failure names. -/
def ruleId? : Failure → Option String
  | rule id _ | reference id _ _ | unknownOperator id _ | unknownFunction id _ | unknownAction id _ =>
    some id
  | _ => none

/-- The same failure of a rule that is called otherwise. -/
def called (id : String) : Failure → Failure
  | rule _ fault => rule id fault
  | reference _ text fault => reference id text fault
  | unknownOperator _ name => unknownOperator id name
  | unknownFunction _ name => unknownFunction id name
  | unknownAction _ name => unknownAction id name
  | other => other

theorem isOfRule_eq (failure : Failure) : failure.isOfRule = failure.ruleId?.isSome := by
  cases failure <;> rfl

end Failure

/-- A sequence of two steps fails where one of them does. -/
theorem error_of_bind {ε α β : Type} {first : Except ε α} {next : α → Except ε β} {failure : ε}
    (h : (first >>= next) = .error failure) :
    first = .error failure ∨ ∃ a, first = .ok a ∧ next a = .error failure := by
  cases first with
  | error fault =>
    cases h
    exact .inl rfl
  | ok a => exact .inr ⟨a, rfl, h⟩

variable {σ : Type}

/-- What is made under one name of a rule, and under another: either both are made and are related,
or both times the same is wrong, and the first failure names the rule. -/
inductive Renamed {α β : Type} (id id' : String) (R : α → β → Prop) :
    Except Failure α → Except Failure β → Prop where
  | ok {a : α} {b : β} : R a b → Renamed id id' R (.ok a) (.ok b)
  | error {failure : Failure} : failure.ruleId? = some id →
      Renamed id id' R (.error failure) (.error (failure.called id'))

namespace Renamed

variable {α β α' β' : Type} {id id' : String} {R : α → β → Prop} {S : α' → β' → Prop}
  {made : Except Failure α} {made' : Except Failure β}

theorem bind {next : α → Except Failure α'} {next' : β → Except Failure β'}
    (h : Renamed id id' R made made')
    (hnext : ∀ a b, R a b → Renamed id id' S (next a) (next' b)) :
    Renamed id id' S (made >>= next) (made' >>= next') := by
  cases h with
  | ok hrelated => exact hnext _ _ hrelated
  | error hid => exact .error hid

theorem bind_eq {made made' : Except Failure α} {next : α → Except Failure α'}
    {next' : α → Except Failure β'} (h : Renamed id id' Eq made made')
    (hnext : ∀ a, Renamed id id' S (next a) (next' a)) :
    Renamed id id' S (made >>= next) (made' >>= next') :=
  h.bind fun a _ hab => hab ▸ hnext a

theorem exists_of_ok (h : Renamed id id' R made made') {a : α} (hmade : made = .ok a) :
    ∃ b, made' = .ok b ∧ R a b := by
  cases h with
  | ok hrelated =>
    cases hmade
    exact ⟨_, rfl, hrelated⟩
  | error _ => cases hmade

theorem named (h : Renamed id id' R made made') {failure : Failure}
    (hfailure : made = .error failure) : failure.ruleId? = some id := by
  cases h with
  | ok _ => cases hfailure
  | error hid =>
    cases hfailure
    exact hid

end Renamed

/-- The names of a rule that is called otherwise. -/
def Scope.called (scope : Scope) (id : String) : Scope := { scope with ruleId := id }

namespace Scope

variable (scope : Scope) (id : String)

theorem renamed_reference (name : String) (path : Option String) :
    Renamed scope.ruleId id Eq (scope.reference name path)
      ((scope.called id).reference name path) := by
  have hbase : (scope.called id).base? name = scope.base? name := rfl
  unfold reference
  rw [hbase]
  cases scope.base? name with
  | none => exact .error rfl
  | some found =>
    dsimp only
    split
    · exact .ok rfl
    · exact .error rfl

theorem renamed_constant (place : String) (kind : Option Kind) (v : Json) :
    Renamed scope.ruleId id Eq (scope.constant place kind v : Except Failure (Term σ))
      ((scope.called id).constant place kind v) := by
  unfold constant
  cases kind with
  | none => exact .ok rfl
  | some declared =>
    dsimp only
    split
    · exact .error rfl
    · split
      · exact .ok rfl
      · exact .ok rfl

end Scope

namespace Vocabulary

variable (words : Vocabulary σ) (scope : Scope) (id : String)

theorem renamed_asFormula (place : String) (t : Term σ) :
    Renamed scope.ruleId id Eq (asFormula scope place t) (asFormula (scope.called id) place t) := by
  cases t with
  | formula made => exact .ok rfl
  | call name function params =>
    unfold asFormula
    dsimp only
    split
    · exact .ok rfl
    · exact .ok rfl
    · exact .error rfl
  | reference r =>
    unfold asFormula
    dsimp only
    split
    · exact .ok rfl
    · exact .error rfl
  | constant _ _ => exact .error rfl
  | list _ => exact .error rfl

mutual

theorem renamed_term (place : String) : ∀ e : Expression,
    Renamed scope.ruleId id Eq (words.term scope place e) (words.term (scope.called id) place e)
  | .value kind v => by
    rw [term.eq_def, term.eq_def]
    dsimp only
    split
    · exact (scope.renamed_reference id _ _).bind_eq fun _ => .ok rfl
    · exact scope.renamed_constant id place kind v
  | .values items => by
    rw [term.eq_def, term.eq_def]
    exact (renamed_terms place 0 items).bind_eq fun _ => .ok rfl
  | .operator name operands => by
    rw [term.eq_def, term.eq_def]
    dsimp only
    split
    · exact .error rfl
    · next rule hrule =>
      refine (renamed_terms _ 0 operands).bind_eq fun made => ?_
      split
      · exact .ok rfl
      · exact .error rfl
  | .function name params => by
    rw [term.eq_def, term.eq_def]
    dsimp only
    split
    · exact .error rfl
    · exact (renamed_parameters _ [] params).bind_eq fun _ => .ok rfl
  | .reference name path => by
    rw [term.eq_def, term.eq_def]
    exact (scope.renamed_reference id name path).bind_eq fun _ => .ok rfl

theorem renamed_terms (place : String) (index : Nat) : ∀ items : List Expression,
    Renamed scope.ruleId id Eq (words.terms scope place index items)
      (words.terms (scope.called id) place index items)
  | [] => by
    rw [terms.eq_def, terms.eq_def]
    exact .ok rfl
  | item :: rest => by
    rw [terms.eq_def, terms.eq_def]
    exact (renamed_term _ item).bind_eq fun _ =>
      (renamed_terms place (index + 1) rest).bind_eq fun _ => .ok rfl

theorem renamed_parameters (place : String) (seen : List String) :
    ∀ params : List (String × Expression),
      Renamed scope.ruleId id Eq (words.parameters scope place seen params)
        (words.parameters (scope.called id) place seen params)
  | [] => by
    rw [parameters.eq_def, parameters.eq_def]
    exact .ok rfl
  | (name, v) :: rest => by
    rw [parameters.eq_def, parameters.eq_def]
    dsimp only
    split
    · exact .error rfl
    · exact (renamed_term _ v).bind_eq fun _ =>
        (renamed_parameters place (name :: seen) rest).bind_eq fun _ => .ok rfl

end

theorem renamed_predicate (place : String) (e : Expression) :
    Renamed scope.ruleId id Eq (words.predicate scope place e)
      (words.predicate (scope.called id) place e) := by
  have hterm : Renamed scope.ruleId id Eq
      (do asFormula scope place (← words.term scope place e))
      (do asFormula (scope.called id) place (← words.term (scope.called id) place e)) :=
    (renamed_term words scope id place e).bind_eq fun t => renamed_asFormula scope id place t
  cases e with
  | value kind v =>
    unfold predicate
    dsimp only
    split
    · exact .ok rfl
    · exact .ok rfl
    · exact .error rfl
    · exact hterm
  | values items => exact .error rfl
  | operator _ _ | function _ _ | reference _ _ => exact hterm

theorem renamed_actionsFrom (index : Nat) (calls : List ActionCall) :
    Renamed scope.ruleId id Eq (words.actionsFrom scope index calls)
      (words.actionsFrom (scope.called id) index calls) := by
  induction calls generalizing index with
  | nil => exact .ok rfl
  | cons call rest ih =>
    unfold actionsFrom
    split
    · exact .error rfl
    · exact (renamed_parameters words scope id _ [] call.params).bind_eq fun _ =>
        (ih (index + 1)).bind_eq fun _ => .ok rfl

end Vocabulary

theorem renamed_attributeTables (id id' : String) (values : Table Json) (shapes : Table Shape)
    (entries : List Attribute) :
    Renamed id id' Eq (attributeTables id values shapes entries)
      (attributeTables id' values shapes entries) := by
  induction entries generalizing values shapes with
  | nil => exact .ok rfl
  | cons entry rest ih =>
    unfold attributeTables
    split
    · exact .error rfl
    · split
      · exact .error rfl
      · exact ih _ _

theorem renamed_factShapes (id id' : String) (schemas : Schemas) (shapes : Table Shape)
    (facts : List FactDeclaration) :
    Renamed id id' Eq (factShapes id schemas shapes facts)
      (factShapes id' schemas shapes facts) := by
  induction facts generalizing shapes with
  | nil => exact .ok rfl
  | cons fact rest ih =>
    unfold factShapes
    split
    · exact .error rfl
    · exact ih _

namespace Compiler

variable {compiler : Compiler σ} {place : Nat} {rule : Rule} {failure : Failure}

/-- What a rule is called makes no difference but to what is called by it. -/
theorem renamed_compile (compiler compiler' : Compiler σ)
    (hwords : compiler'.toVocabulary = compiler.toVocabulary) (place place' : Nat) (rule : Rule) :
    Renamed (compiler.ruleId place rule) (compiler'.ruleId place' rule)
      (fun compiled compiled' => compiled' = { compiled with id := compiler'.ruleId place' rule })
      (compiler.compile place rule) (compiler'.compile place' rule) := by
  unfold compile
  rw [hwords]
  refine (renamed_attributeTables _ _ [] [] rule.attributes).bind_eq fun tables => ?_
  refine (renamed_factShapes _ _ compiler.schemas [] rule.facts).bind_eq fun facts => ?_
  -- The two scopes hold the same tables, and each is called by its own name of the rule.
  let scope : Scope := ⟨compiler.ruleId place rule, tables.2, facts⟩
  let id' := compiler'.ruleId place' rule
  refine (compiler.renamed_predicate scope id' "predicate" rule.predicate).bind_eq fun _ => ?_
  refine (compiler.renamed_actionsFrom scope id' 0 rule.actions).bind_eq fun _ => ?_
  exact .ok rfl

/-- A rule that does not compile is named by the failure. -/
theorem ruleId_of_compile (h : compiler.compile place rule = .error failure) :
    failure.ruleId? = some (compiler.ruleId place rule) :=
  (compiler.renamed_compile compiler rfl place place rule).named h

theorem ruleId_of_declareFacts {names : FactNames} {compiled : CompiledRule σ}
    (h : declareFacts names compiled = .error failure) : failure.ruleId? = some compiled.id := by
  unfold declareFacts at h
  dsimp only at h
  split at h
  · cases h
    rfl
  · cases h

end Compiler

theorem Rule.ruleId_of_bound {rule : Rule} {name : String} {failure : Failure}
    (h : rule.bound? name = .error failure) : failure.ruleId? = some (rule.name?.getD "") := by
  unfold bound? at h
  dsimp only at h
  split at h
  · cases h
  · cases h
  · split at h
    · cases h
    · cases h
      rfl
  · cases h
    rfl

theorem Rule.ruleId_of_isValidAt {rule : Rule} {now : Instant} {failure : Failure}
    (h : rule.isValidAt now = .error failure) : failure.ruleId? = some (rule.name?.getD "") := by
  unfold isValidAt at h
  rcases error_of_bind h with hstart | ⟨start, -, h⟩
  · exact ruleId_of_bound hstart
  · split at h
    · cases h
    · rcases error_of_bind h with hexpiry | ⟨expiry, -, h⟩
      · exact ruleId_of_bound hexpiry
      · cases h

end Rulebook
