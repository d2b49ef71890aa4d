import Mathlib.Data.List.Forall2
import Rulebook.Proofs.Parts

/-!
# One rule compiled twice

Two compilations of one rule go through the same expressions. Where each step of the second does
what the step of the first did, up to a relation between terms, the second one succeeds whenever the
first does and makes a rule that is related to it part by part. `Vocabulary.Mirrors` lists the steps.
-/
namespace Rulebook

variable {σ : Type}

/-- Each step that succeeds in the first scope succeeds in the second one, at any place there, with a
related term. The vocabularies differ in nothing that the steps look up. -/
structure Vocabulary.Mirrors (words words' : Vocabulary σ) (scope scope' : Scope)
    (R : Term σ → Term σ → Prop) : Prop where
  operators : words'.operators = words.operators
  functions : words'.functions = words.functions
  actions : words'.actions = words.actions
  constant : ∀ {place kind v t}, scope.constant place kind v = .ok t → ∀ place',
    ∃ t', scope'.constant place' kind v = .ok t' ∧ R t t'
  reference : ∀ {name path r}, scope.reference name path = .ok r →
    ∃ r', scope'.reference name path = .ok r' ∧ R (.reference r) (.reference r')
  list : ∀ {ts ts'}, List.Forall₂ R ts ts' → R (.list ts) (.list ts')
  call : ∀ {name function params params'}, List.Forall₂ (fun p p' => p.1 = p'.1 ∧ R p.2 p'.2)
    params params' → R (.call name function params) (.call name function params')
  operator : ∀ {name rule operands operands' formula},
    Table.get? words.operators name = some rule → rule.make operands = .ok formula →
    List.Forall₂ R operands operands' →
    ∃ formula', rule.make operands' = .ok formula' ∧ R (.formula formula) (.formula formula')
  truth : ∀ truth, R (.formula (.constant truth)) (.formula (.constant truth))
  formula : ∀ {place t t' formula}, Vocabulary.asFormula scope place t = .ok formula → R t t' →
    ∀ place', ∃ formula', Vocabulary.asFormula scope' place' t' = .ok formula' ∧
      R (.formula formula) (.formula formula')

/-- The same actions under the same names, with related arguments. -/
def CompiledAction.Mirrors (R : Term σ → Term σ → Prop) (action action' : CompiledAction σ) : Prop :=
  action.name = action'.name ∧ action.action = action'.action ∧
    List.Forall₂ (fun p p' => p.1 = p'.1 ∧ R p.2 p'.2) action.params action'.params

namespace Vocabulary.Mirrors

variable {words words' : Vocabulary σ} {scope scope' : Scope} {R : Term σ → Term σ → Prop}

mutual

theorem of_term (h : words.Mirrors words' scope scope' R) {place : String} (place' : String) :
    ∀ {expression : Expression} {t : Term σ}, words.term scope place expression = .ok t →
      ∃ t', words'.term scope' place' expression = .ok t' ∧ R t t'
  | .value kind v, t, ht => by
    rw [Vocabulary.term.eq_def] at ht ⊢
    dsimp only at ht ⊢
    split at ht
    · obtain ⟨r, hr, ht⟩ := exists_of_bind_ok ht
      cases ht
      obtain ⟨r', hr', hrelated⟩ := h.reference hr
      exact ⟨_, by rw [hr']; rfl, hrelated⟩
    · exact h.constant ht place'
  | .values items, t, ht => by
    rw [Vocabulary.term.eq_def] at ht ⊢
    obtain ⟨ts, hts, ht⟩ := exists_of_bind_ok ht
    cases ht
    obtain ⟨ts', hts', hrelated⟩ := of_terms h _ hts
    exact ⟨_, by dsimp only; rw [hts']; rfl, h.list hrelated⟩
  | .operator name operands, t, ht => by
    rw [Vocabulary.term.eq_def] at ht ⊢
    dsimp only at ht ⊢
    rw [h.operators]
    split at ht
    · cases ht
    · next rule hrule =>
      obtain ⟨ts, hts, ht⟩ := exists_of_bind_ok ht
      obtain ⟨ts', hts', hoperands⟩ := of_terms h (place' ++ "." ++ name) hts
      split at ht
      · next formula hmake =>
        cases ht
        obtain ⟨formula', hmake', hrelated⟩ := h.operator hrule hmake hoperands
        exact ⟨_, by simp only [hts', bind, Except.bind, hmake']; rfl, hrelated⟩
      · cases ht
  | .function name params, t, ht => by
    rw [Vocabulary.term.eq_def] at ht ⊢
    dsimp only at ht ⊢
    rw [h.functions]
    split at ht
    · cases ht
    · obtain ⟨ts, hts, ht⟩ := exists_of_bind_ok ht
      cases ht
      obtain ⟨ts', hts', hrelated⟩ := of_parameters h _ hts
      exact ⟨_, by rw [hts']; rfl, h.call hrelated⟩
  | .reference name path, t, ht => by
    rw [Vocabulary.term.eq_def] at ht ⊢
    obtain ⟨r, hr, ht⟩ := exists_of_bind_ok ht
    cases ht
    obtain ⟨r', hr', hrelated⟩ := h.reference hr
    exact ⟨_, by dsimp only; rw [hr']; rfl, hrelated⟩

theorem of_terms (h : words.Mirrors words' scope scope' R) {place : String} {index : Nat}
    (place' : String) :
    ∀ {items : List Expression} {ts : List (Term σ)}, words.terms scope place index items = .ok ts →
      ∃ ts', words'.terms scope' place' index items = .ok ts' ∧ List.Forall₂ R ts ts'
  | [], ts, hts => by
    rw [Vocabulary.terms.eq_def] at hts ⊢
    cases hts
    exact ⟨[], rfl, .nil⟩
  | item :: rest, ts, hts => by
    rw [Vocabulary.terms.eq_def] at hts ⊢
    obtain ⟨first, hfirst, hts⟩ := exists_of_bind_ok hts
    obtain ⟨others, hothers, hts⟩ := exists_of_bind_ok hts
    cases hts
    obtain ⟨first', hfirst', hrelated⟩ := of_term h _ hfirst
    obtain ⟨others', hothers', hrest⟩ := of_terms h place' hothers
    exact ⟨_, by dsimp only; rw [hfirst', hothers']; rfl, .cons hrelated hrest⟩

theorem of_parameters (h : words.Mirrors words' scope scope' R) {place : String}
    {seen : List String} (place' : String) :
    ∀ {params : List (String × Expression)} {ts : List (String × Term σ)},
      words.parameters scope place seen params = .ok ts →
      ∃ ts', words'.parameters scope' place' seen params = .ok ts' ∧
        List.Forall₂ (fun p p' => p.1 = p'.1 ∧ R p.2 p'.2) ts ts'
  | [], ts, hts => by
    rw [Vocabulary.parameters.eq_def] at hts ⊢
    cases hts
    exact ⟨[], rfl, .nil⟩
  | (name, v) :: rest, ts, hts => by
    rw [Vocabulary.parameters.eq_def] at hts ⊢
    dsimp only at hts ⊢
    split at hts
    · cases hts
    · next hseen =>
      obtain ⟨first, hfirst, hts⟩ := exists_of_bind_ok hts
      obtain ⟨others, hothers, hts⟩ := exists_of_bind_ok hts
      cases hts
      obtain ⟨first', hfirst', hrelated⟩ := of_term h _ hfirst
      obtain ⟨others', hothers', hrest⟩ := of_parameters h place' hothers
      rw [if_neg hseen]
      exact ⟨(name, first') :: others', by rw [hfirst', hothers']; rfl, .cons ⟨rfl, hrelated⟩ hrest⟩

end

theorem of_predicate (h : words.Mirrors words' scope scope' R) {place : String}
    {expression : Expression} {formula : Formula σ}
    (hformula : words.predicate scope place expression = .ok formula) :
    ∃ formula', words'.predicate scope' place expression = .ok formula' ∧
      R (.formula formula) (.formula formula') := by
  have hterm : (do asFormula scope place (← words.term scope place expression)) = .ok formula →
      ∃ formula', (do asFormula scope' place (← words'.term scope' place expression)) =
        .ok formula' ∧ R (.formula formula) (.formula formula') := by
    intro hmade
    obtain ⟨t, ht, hmade⟩ := exists_of_bind_ok hmade
    obtain ⟨t', ht', hrelated⟩ := h.of_term place ht
    rw [ht']
    exact h.formula hmade hrelated place
  unfold Vocabulary.predicate at hformula ⊢
  split at hformula
  · split at hformula
    · cases hformula
      exact ⟨_, rfl, h.truth _⟩
    · cases hformula
      exact ⟨_, rfl, h.truth _⟩
    · cases hformula
    · exact hterm hformula
  · cases hformula
  · exact hterm hformula

theorem of_actionsFrom (h : words.Mirrors words' scope scope' R) {calls : List ActionCall} :
    ∀ {index : Nat} {actions : List (CompiledAction σ)},
      words.actionsFrom scope index calls = .ok actions →
      ∃ actions', words'.actionsFrom scope' index calls = .ok actions' ∧
        List.Forall₂ (CompiledAction.Mirrors R) actions actions' := by
  induction calls with
  | nil =>
    intro index actions hactions
    cases hactions
    exact ⟨[], rfl, .nil⟩
  | cons call rest ih =>
    intro index actions hactions
    unfold Vocabulary.actionsFrom at hactions ⊢
    rw [h.actions]
    split at hactions
    · cases hactions
    · next action _ =>
      obtain ⟨params, hparams, hactions⟩ := exists_of_bind_ok hactions
      obtain ⟨others, hothers, hactions⟩ := exists_of_bind_ok hactions
      cases hactions
      obtain ⟨params', hparams', hrelated⟩ := h.of_parameters _ hparams
      obtain ⟨others', hothers', hrest⟩ := ih hothers
      refine ⟨⟨call.name, action, params'⟩ :: others', ?_, .cons ⟨rfl, rfl, hrelated⟩ hrest⟩
      dsimp only
      rw [hparams', hothers']
      rfl

end Vocabulary.Mirrors

/-- What is checked along a path from a shape is checked from a related one, with a related
result. -/
structure Shape.Stable (S : Shape → Shape → Prop) : Prop where
  refl : ∀ shape, S shape shape
  check : ∀ {path : Path} {shape shape' result}, S shape shape' → path.check shape = .ok result →
    ∃ result', path.check shape' = .ok result' ∧ S result result'

theorem Shape.stable_eq : Shape.Stable Eq where
  refl _ := rfl
  check := by
    rintro path shape _ result rfl hcheck
    exact ⟨result, hcheck, rfl⟩

/-- The tables have the same names, and related entries under them. -/
def Table.Alike {α : Type} (S : α → α → Prop) (table table' : Table α) : Prop :=
  ∀ name, Option.Rel S (get? table name) (get? table' name)

theorem Table.Alike.put {α : Type} {S : α → α → Prop} {table table' : Table α}
    (h : Table.Alike S table table') (name : String) {v v' : α} (hv : S v v') :
    Table.Alike S (table.put name v) (table'.put name v') := by
  intro other
  by_cases hname : name = other
  · subst hname
    rw [get?_put_self, get?_put_self]
    exact .some hv
  · rw [get?_put_of_ne _ _ hname, get?_put_of_ne _ _ hname]
    exact h other

theorem Table.Alike.has_eq {α : Type} {S : α → α → Prop} {table table' : Table α}
    (h : Table.Alike S table table') (name : String) : table'.has name = table.has name := by
  have hname := h name
  unfold Table.has
  generalize get? table name = found at hname ⊢
  generalize get? table' name = found' at hname ⊢
  cases hname <;> rfl

theorem attributeTables_of_ok {ruleId : String} {entries : List Attribute} {values : Table Json}
    {shapes : Table Shape} {tables : Table Json × Table Shape}
    (h : attributeTables ruleId values shapes entries = .ok tables) (ruleId' : String) :
    attributeTables ruleId' values shapes entries = .ok tables := by
  induction entries generalizing values shapes with
  | nil => exact h
  | cons entry rest ih =>
    unfold attributeTables at h ⊢
    split at h
    · cases h
    · next hnew =>
      split at h
      · cases h
      · next haccepts =>
        rw [if_neg hnew, if_neg haccepts]
        exact ih h

theorem factShapes_alike {S : Shape → Shape → Prop} {ruleId : String}
    {schemas schemas' : Schemas} (hschemas : ∀ typeName, S (schemas.resolve typeName)
      (schemas'.resolve typeName)) {facts : List FactDeclaration} {shapes shapes' made : Table Shape}
    (h : factShapes ruleId schemas shapes facts = .ok made) (hshapes : Table.Alike S shapes shapes')
    (ruleId' : String) :
    ∃ made', factShapes ruleId' schemas' shapes' facts = .ok made' ∧ Table.Alike S made made' := by
  induction facts generalizing shapes shapes' with
  | nil =>
    cases h
    exact ⟨shapes', rfl, hshapes⟩
  | cons fact rest ih =>
    unfold factShapes at h ⊢
    rw [hshapes.has_eq]
    split at h
    · cases h
    · next hnew =>
      rw [if_neg hnew]
      exact ih h (hshapes.put fact.name (hschemas fact.typeName))

namespace Scope

variable {S : Shape → Shape → Prop} {scope scope' : Scope}

/-- The same attributes with the same shapes, and the same facts with related shapes. -/
structure Alike (S : Shape → Shape → Prop) (scope scope' : Scope) : Prop where
  attributes : scope'.attributes = scope.attributes
  facts : Table.Alike S scope.facts scope'.facts

theorem Alike.base? (h : scope.Alike S scope') (hS : Shape.Stable S) {name : String}
    {base : Reference.Base} {shape : Shape} (hbase : scope.base? name = some (base, shape)) :
    ∃ shape', scope'.base? name = some (base, shape') ∧ S shape shape' := by
  have hfact := h.facts name
  unfold Scope.base? at hbase ⊢
  rw [h.attributes]
  cases hattribute : Table.get? scope.attributes name with
  | some held =>
    rw [hattribute] at hbase
    cases hbase
    exact ⟨_, rfl, hS.refl _⟩
  | none =>
    rw [hattribute] at hbase
    generalize Table.get? scope.facts name = found at hfact hbase
    generalize Table.get? scope'.facts name = found' at hfact
    cases hfact with
    | some hrelated =>
      cases hbase
      exact ⟨_, rfl, hrelated⟩
    | none => exact ⟨shape, hbase, hS.refl shape⟩

/-- A reference is made in both scopes alike; only its shape may differ. -/
theorem Alike.reference (h : scope.Alike S scope') (hS : Shape.Stable S) {name : String}
    {path : Option String} {r : Reference} (hr : scope.reference name path = .ok r) :
    ∃ shape, scope'.reference name path = .ok { r with shape } ∧ S r.shape shape := by
  unfold Scope.reference at hr ⊢
  dsimp only at hr ⊢
  split at hr
  · cases hr
  · next base baseShape hbase =>
    obtain ⟨baseShape', hbase', hrelated⟩ := h.base? hS hbase
    split at hr
    · next made hmade =>
      cases hr
      obtain ⟨segments, hsegments, hmade⟩ := exists_of_bind_ok hmade
      obtain ⟨result, hcheck, hmade⟩ := exists_of_bind_ok hmade
      cases hmade
      obtain ⟨result', hcheck', hresult⟩ := hS.check hrelated hcheck
      refine ⟨result', ?_, hresult⟩
      simp only [hbase', Reference.make, hsegments, bind, Except.bind, hcheck', pure, Except.pure]
    · cases hr

theorem constant_of_ok {place : String} {kind : Option Kind} {v : Json} {t : Term σ}
    (h : scope.constant place kind v = .ok t) (scope' : Scope) (place' : String) :
    scope'.constant place' kind v = .ok t := by
  unfold Scope.constant at h ⊢
  split at h
  · split at h
    · cases h
    · next haccepts =>
      rw [if_neg haccepts]
      exact h
  · exact h

end Scope

/-- A rule that compiles in one scope compiles in a scope that mirrors it. -/
theorem Compiler.compile_of_mirrors {compiler : Compiler σ} {place : Nat} {rule : Rule}
    {compiled : CompiledRule σ} {S : Shape → Shape → Prop} {R : Term σ → Term σ → Prop}
    (compiler' : Compiler σ) (place' : Nat)
    (hschemas : ∀ typeName, S (compiler.schemas.resolve typeName)
      (compiler'.schemas.resolve typeName))
    (hmirrors : ∀ scope scope' : Scope, scope.Alike S scope' →
      compiler.Mirrors compiler'.toVocabulary scope scope' R)
    (h : compiler.compile place rule = .ok compiled) :
    ∃ formula actions,
      compiler'.compile place' rule =
        .ok { compiled with id := compiler'.ruleId place' rule, formula, actions } ∧
      R (.formula compiled.formula) (.formula formula) ∧
      List.Forall₂ (CompiledAction.Mirrors R) compiled.actions actions := by
  unfold Compiler.compile at h ⊢
  obtain ⟨⟨attributes, shapes⟩, hattributes, h⟩ := exists_of_bind_ok h
  obtain ⟨facts, hfacts, h⟩ := exists_of_bind_ok h
  obtain ⟨formula, hformula, h⟩ := exists_of_bind_ok h
  obtain ⟨actions, hactions, h⟩ := exists_of_bind_ok h
  cases h
  have hempty : Table.Alike S [] [] := fun _ => .none
  obtain ⟨facts', hfacts', halike⟩ :=
    factShapes_alike hschemas hfacts hempty (compiler'.ruleId place' rule)
  have hwords := hmirrors ⟨compiler.ruleId place rule, shapes, facts⟩
    ⟨compiler'.ruleId place' rule, shapes, facts'⟩ ⟨rfl, halike⟩
  obtain ⟨formula', hformula', hrelated⟩ := hwords.of_predicate hformula
  obtain ⟨actions', hactions', hrest⟩ := hwords.of_actionsFrom hactions
  refine ⟨formula', actions', ?_, hrelated, hrest⟩
  simp only [attributeTables_of_ok hattributes, hfacts', hformula', hactions', bind, Except.bind,
    pure, Except.pure]

end Rulebook
