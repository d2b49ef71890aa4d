import Rulebook.Compiler
import Rulebook.Proofs.Evaluation

/-!
# The parts of compiled rules

A compiled rule is made of terms, and terms are made of others. What its evaluation relies on is
said of each of these parts by itself. `Vocabulary.Yields` lists the ways in which compiling makes
a term; a property that each of them yields belongs to all parts of a compiled rule.
-/
namespace Rulebook

variable {σ : Type}

mutual

/-- The term, and all terms that it is made of. -/
def Term.parts : Term σ → List (Term σ)
  | .constant value shape => [.constant value shape]
  | .list items => .list items :: Term.partsOfItems items
  | .reference r => [.reference r]
  | .call name function params => .call name function params :: Term.partsOfParams params
  | .formula formula => .formula formula :: formula.parts

def Term.partsOfItems : List (Term σ) → List (Term σ)
  | [] => []
  | item :: rest => item.parts ++ Term.partsOfItems rest

def Term.partsOfParams : List (String × Term σ) → List (Term σ)
  | [] => []
  | (_, param) :: rest => param.parts ++ Term.partsOfParams rest

/-- All terms that the formula is made of. -/
def Formula.parts : Formula σ → List (Term σ)
  | .constant _ => []
  | .value operand | .not operand | .check _ operand => operand.parts
  | .and operands | .or operands => Term.partsOfItems operands
  | .matchesPattern subject _ => subject.parts
  | .relation _ left right | .matchesTerm _ left right | .contains _ left right =>
    left.parts ++ right.parts

end

def Formula.operands : Formula σ → List (Term σ)
  | .constant _ => []
  | .value operand | .not operand | .check _ operand => [operand]
  | .and operands | .or operands => operands
  | .matchesPattern subject _ => [subject]
  | .relation _ left right | .matchesTerm _ left right | .contains _ left right => [left, right]

/-- Induction on the terms that a term is made of directly. -/
theorem Term.induct {P : Term σ → Prop}
    (constant : ∀ value shape, P (.constant value shape))
    (list : ∀ items, (∀ item ∈ items, P item) → P (.list items))
    (reference : ∀ r, P (.reference r))
    (call : ∀ name function params, (∀ param ∈ params, P param.2) → P (.call name function params))
    (formula : ∀ made, (∀ operand ∈ made.operands, P operand) → P (.formula made)) (t : Term σ) :
    P t := by
  have one : ∀ operand, P operand → ∀ t ∈ [operand], P t :=
    fun operand h => List.forall_mem_singleton.mpr h
  have two : ∀ left right, P left → P right → ∀ t ∈ [left, right], P t :=
    fun left right hl hr => List.forall_mem_cons.mpr ⟨hl, one right hr⟩
  refine @Term.rec σ P (fun made => ∀ operand ∈ made.operands, P operand)
    (fun items => ∀ item ∈ items, P item) (fun params => ∀ param ∈ params, P param.2)
    (fun param => P param.2) constant list reference call formula ?constant one ?and ?or one
    (fun _ => one) (fun _ => two) (fun subject _ => one subject) (fun _ => two) (fun _ => two)
    ?noItems ?items ?noParams ?params (fun _ _ h => h) t
  case constant => exact fun _ => List.forall_mem_nil P
  case and => exact fun _ h => h
  case or => exact fun _ h => h
  case noItems => exact List.forall_mem_nil P
  case items => exact fun _ _ h hrest => List.forall_mem_cons.mpr ⟨h, hrest⟩
  case noParams => exact List.forall_mem_nil _
  case params => exact fun _ _ h hrest => List.forall_mem_cons.mpr ⟨h, hrest⟩

namespace Term

variable {P : Term σ → Prop}

theorem self_mem_parts (t : Term σ) : t ∈ t.parts := by
  cases t <;> simp [parts]

theorem mem_partsOfItems {items : List (Term σ)} {part : Term σ} :
    part ∈ partsOfItems items ↔ ∃ item ∈ items, part ∈ item.parts := by
  induction items with
  | nil => simp [partsOfItems]
  | cons item rest ih => simp [partsOfItems, ih]

theorem mem_partsOfParams {params : List (String × Term σ)} {part : Term σ} :
    part ∈ partsOfParams params ↔ ∃ param ∈ params, part ∈ param.2.parts := by
  induction params with
  | nil => simp [partsOfParams]
  | cons param rest ih => simp [partsOfParams, ih]

theorem forall_partsOfItems {items : List (Term σ)} :
    (∀ part ∈ partsOfItems items, P part) ↔ ∀ item ∈ items, ∀ part ∈ item.parts, P part := by
  refine ⟨fun h item hitem part hpart => ?_, fun h part hpart => ?_⟩
  · exact h part (mem_partsOfItems.mpr ⟨item, hitem, hpart⟩)
  · obtain ⟨item, hitem, hpart⟩ := mem_partsOfItems.mp hpart
    exact h item hitem part hpart

theorem forall_partsOfParams {params : List (String × Term σ)} :
    (∀ part ∈ partsOfParams params, P part) ↔
      ∀ param ∈ params, ∀ part ∈ param.2.parts, P part := by
  refine ⟨fun h param hparam part hpart => ?_, fun h part hpart => ?_⟩
  · exact h part (mem_partsOfParams.mpr ⟨param, hparam, hpart⟩)
  · obtain ⟨param, hparam, hpart⟩ := mem_partsOfParams.mp hpart
    exact h param hparam part hpart

end Term

theorem Formula.mem_parts {formula : Formula σ} {part : Term σ} :
    part ∈ formula.parts ↔ ∃ operand ∈ formula.operands, part ∈ operand.parts := by
  cases formula with
  | constant _ => simp [parts, operands]
  | and _ | or _ => exact Term.mem_partsOfItems
  | value _ | not _ | check _ _ | matchesPattern _ _ => simp [parts, operands]
  | relation _ _ _ | matchesTerm _ _ _ | contains _ _ _ => simp [parts, operands]

theorem Formula.forall_parts {formula : Formula σ} {P : Term σ → Prop} :
    (∀ part ∈ formula.parts, P part) ↔
      ∀ operand ∈ formula.operands, ∀ part ∈ operand.parts, P part := by
  refine ⟨fun h operand hoperand part hpart => ?_, fun h part hpart => ?_⟩
  · exact h part (mem_parts.mpr ⟨operand, hoperand, hpart⟩)
  · obtain ⟨operand, hoperand, hpart⟩ := mem_parts.mp hpart
    exact h operand hoperand part hpart

/-- What a part is made of belongs to the whole. -/
theorem Term.parts_of_mem_parts {t part : Term σ} (h : part ∈ t.parts) :
    ∀ inner ∈ part.parts, inner ∈ t.parts := by
  induction t using Term.induct with
  | constant v shape =>
    rw [parts, List.mem_singleton] at h
    rw [h]
    exact fun _ hinner => hinner
  | reference r =>
    rw [parts, List.mem_singleton] at h
    rw [h]
    exact fun _ hinner => hinner
  | list items ih =>
    rw [parts, List.mem_cons] at h
    rcases h with rfl | h
    · exact fun _ hinner => hinner
    · obtain ⟨item, hitem, h⟩ := mem_partsOfItems.mp h
      intro inner hinner
      exact List.mem_cons_of_mem _ (mem_partsOfItems.mpr ⟨item, hitem, ih item hitem h inner hinner⟩)
  | call name function params ih =>
    rw [parts, List.mem_cons] at h
    rcases h with rfl | h
    · exact fun _ hinner => hinner
    · obtain ⟨param, hparam, h⟩ := mem_partsOfParams.mp h
      intro inner hinner
      exact List.mem_cons_of_mem _
        (mem_partsOfParams.mpr ⟨param, hparam, ih param hparam h inner hinner⟩)
  | formula made ih =>
    rw [parts, List.mem_cons] at h
    rcases h with rfl | h
    · exact fun _ hinner => hinner
    · obtain ⟨operand, hoperand, h⟩ := Formula.mem_parts.mp h
      intro inner hinner
      exact List.mem_cons_of_mem _
        (Formula.mem_parts.mpr ⟨operand, hoperand, ih operand hoperand h inner hinner⟩)

/-- All terms of the rule: its formula as a term, the arguments of its actions, and what these are
made of. -/
def CompiledRule.parts (rule : CompiledRule σ) : List (Term σ) :=
  (Term.formula rule.formula).parts ++
    rule.actions.flatMap fun action => Term.partsOfParams action.params

/-- What a part of the rule is made of belongs to the rule. -/
theorem CompiledRule.parts_of_mem_parts {rule : CompiledRule σ} {part : Term σ}
    (h : part ∈ rule.parts) : ∀ inner ∈ part.parts, inner ∈ rule.parts := by
  intro inner hinner
  rw [parts, List.mem_append, List.mem_flatMap] at h ⊢
  rcases h with h | ⟨action, haction, h⟩
  · exact .inl (Term.parts_of_mem_parts h inner hinner)
  · obtain ⟨param, hparam, h⟩ := Term.mem_partsOfParams.mp h
    exact .inr ⟨action, haction,
      Term.mem_partsOfParams.mpr ⟨param, hparam, Term.parts_of_mem_parts h inner hinner⟩⟩

theorem CompiledRule.forall_parts {rule : CompiledRule σ} {P : Term σ → Prop} :
    (∀ part ∈ rule.parts, P part) ↔
      (∀ part ∈ (Term.formula rule.formula).parts, P part) ∧
      ∀ action ∈ rule.actions, ∀ part ∈ Term.partsOfParams action.params, P part := by
  rw [parts, List.forall_mem_append]
  refine and_congr_right fun _ => ⟨fun h action haction part hpart => ?_, fun h part hpart => ?_⟩
  · exact h part (List.mem_flatMap.mpr ⟨action, haction, hpart⟩)
  · obtain ⟨action, haction, hpart⟩ := List.mem_flatMap.mp hpart
    exact h action haction part hpart

/-- A constant stands for its value, whatever shape it is given. -/
theorem Scope.constant_eq {scope : Scope} {place : String} {kind : Option Kind} {v : Json}
    {t : Term σ} (h : scope.constant place kind v = .ok t) : ∃ shape, t = .constant v shape := by
  unfold Scope.constant at h
  split at h
  · split at h
    · cases h
    · split at h
      · cases h
        exact ⟨_, rfl⟩
      · cases h
        exact ⟨_, rfl⟩
  · cases h
    exact ⟨_, rfl⟩

namespace Vocabulary

variable {words : Vocabulary σ} {scope : Scope} {P : Term σ → Prop}

/-- The terms that compiling makes in a scope have a property, if the terms have it that they are
made of. -/
structure Yields (words : Vocabulary σ) (scope : Scope) (P : Term σ → Prop) : Prop where
  constant : ∀ {place kind v t}, scope.constant place kind v = .ok t → ∀ part ∈ t.parts, P part
  list : ∀ items, P (.list items)
  reference : ∀ {name path r}, scope.reference name path = .ok r → P (.reference r)
  call : ∀ {name function} params, Table.get? words.functions name = some function →
    P (.call name function params)
  operator : ∀ {name rule operands formula}, Table.get? words.operators name = some rule →
    rule.make operands = .ok formula → (∀ operand ∈ operands, ∀ part ∈ operand.parts, P part) →
    ∀ part ∈ (Term.formula formula).parts, P part
  truth : ∀ truth, P (.formula (.constant truth))
  value : ∀ {t : Term σ}, t.shape.isBooleanLike = true → P (.formula (.value t))

namespace Yields

mutual

theorem of_term (h : words.Yields scope P) {place : String} : ∀ {expression : Expression}
    {t : Term σ}, words.term scope place expression = .ok t → ∀ part ∈ t.parts, P part
  | .value kind v, t, ht => by
    rw [Vocabulary.term.eq_def] at ht
    dsimp only at ht
    split at ht
    · obtain ⟨r, hr, ht⟩ := exists_of_bind_ok ht
      cases ht
      simpa [Term.parts] using h.reference hr
    · exact h.constant ht
  | .values items, t, ht => by
    rw [Vocabulary.term.eq_def] at ht
    obtain ⟨ts, hts, ht⟩ := exists_of_bind_ok ht
    cases ht
    rw [Term.parts, List.forall_mem_cons]
    exact ⟨h.list ts, Term.forall_partsOfItems.mpr (of_terms h hts)⟩
  | .operator name operands, t, ht => by
    rw [Vocabulary.term.eq_def] at ht
    dsimp only at ht
    split at ht
    · cases ht
    · next rule hrule =>
      obtain ⟨ts, hts, ht⟩ := exists_of_bind_ok ht
      split at ht
      · next formula hmake =>
        cases ht
        exact h.operator hrule hmake (of_terms h hts)
      · cases ht
  | .function name params, t, ht => by
    rw [Vocabulary.term.eq_def] at ht
    dsimp only at ht
    split at ht
    · cases ht
    · next function hfunction =>
      obtain ⟨ts, hts, ht⟩ := exists_of_bind_ok ht
      cases ht
      rw [Term.parts, List.forall_mem_cons]
      exact ⟨h.call ts hfunction, of_parameters h hts⟩
  | .reference name path, t, ht => by
    rw [Vocabulary.term.eq_def] at ht
    obtain ⟨r, hr, ht⟩ := exists_of_bind_ok ht
    cases ht
    simpa [Term.parts] using h.reference hr

theorem of_terms (h : words.Yields scope P) {place : String} {index : Nat} :
    ∀ {items : List Expression} {ts : List (Term σ)}, words.terms scope place index items = .ok ts →
      ∀ t ∈ ts, ∀ part ∈ t.parts, P part
  | [], ts, hts => by
    rw [Vocabulary.terms.eq_def] at hts
    cases hts
    simp
  | item :: rest, ts, hts => by
    rw [Vocabulary.terms.eq_def] at hts
    obtain ⟨first, hfirst, hts⟩ := exists_of_bind_ok hts
    obtain ⟨others, hothers, hts⟩ := exists_of_bind_ok hts
    cases hts
    exact List.forall_mem_cons.mpr ⟨of_term h hfirst, of_terms h hothers⟩

theorem of_parameters (h : words.Yields scope P) {place : String} {seen : List String} :
    ∀ {params : List (String × Expression)} {ts : List (String × Term σ)},
      words.parameters scope place seen params = .ok ts →
      ∀ part ∈ Term.partsOfParams ts, P part
  | [], ts, hts => by
    rw [Vocabulary.parameters.eq_def] at hts
    cases hts
    simp [Term.partsOfParams]
  | (name, v) :: rest, ts, hts => by
    rw [Vocabulary.parameters.eq_def] at hts
    dsimp only at hts
    split at hts
    · cases hts
    · obtain ⟨first, hfirst, hts⟩ := exists_of_bind_ok hts
      obtain ⟨others, hothers, hts⟩ := exists_of_bind_ok hts
      cases hts
      rw [Term.partsOfParams, List.forall_mem_append]
      exact ⟨of_term h hfirst, of_parameters h hothers⟩

end

theorem of_asFormula (h : words.Yields scope P) {place : String} {t : Term σ}
    {formula : Formula σ} (hparts : ∀ part ∈ t.parts, P part)
    (hformula : asFormula scope place t = .ok formula) :
    ∀ part ∈ (Term.formula formula).parts, P part := by
  have hvalue : t.shape.isBooleanLike = true →
      ∀ part ∈ (Term.formula (.value t)).parts, P part := by
    intro hshape
    rw [Term.parts, List.forall_mem_cons]
    exact ⟨h.value hshape, hparts⟩
  cases t with
  | formula inner =>
    cases hformula
    exact hparts
  | call name function params =>
    unfold asFormula at hformula
    dsimp only at hformula
    split at hformula
    · next hreturns =>
      cases hformula
      exact hvalue (by rw [Term.shape, hreturns]; rfl)
    · next hreturns =>
      cases hformula
      exact hvalue (by rw [Term.shape, hreturns]; rfl)
    · cases hformula
  | reference r =>
    unfold asFormula at hformula
    dsimp only at hformula
    split at hformula
    · next hshape =>
      cases hformula
      exact hvalue hshape
    · cases hformula
  | constant _ _ => cases hformula
  | list _ => cases hformula

theorem of_predicate (h : words.Yields scope P) {place : String} {expression : Expression}
    {formula : Formula σ} (hformula : words.predicate scope place expression = .ok formula) :
    ∀ part ∈ (Term.formula formula).parts, P part := by
  have htruth : ∀ truth, ∀ part ∈ (Term.formula (.constant truth)).parts, P part := by
    intro truth
    simpa [Term.parts, Formula.parts] using h.truth truth
  have hterm : (do asFormula scope place (← words.term scope place expression)) = .ok formula →
      ∀ part ∈ (Term.formula formula).parts, P part := by
    intro hmade
    obtain ⟨t, ht, hmade⟩ := exists_of_bind_ok hmade
    exact h.of_asFormula (h.of_term ht) hmade
  unfold Vocabulary.predicate at hformula
  split at hformula
  · split at hformula
    · cases hformula
      exact htruth _
    · cases hformula
      exact htruth _
    · cases hformula
    · exact hterm hformula
  · cases hformula
  · exact hterm hformula

theorem of_actionsFrom (h : words.Yields scope P) {calls : List ActionCall} :
    ∀ {index : Nat} {actions : List (CompiledAction σ)},
      words.actionsFrom scope index calls = .ok actions →
      ∀ action ∈ actions, ∀ part ∈ Term.partsOfParams action.params, P part := by
  induction calls with
  | nil =>
    intro index actions hactions
    cases hactions
    simp
  | cons call rest ih =>
    intro index actions hactions
    unfold Vocabulary.actionsFrom at hactions
    split at hactions
    · cases hactions
    · obtain ⟨params, hparams, hactions⟩ := exists_of_bind_ok hactions
      obtain ⟨others, hothers, hactions⟩ := exists_of_bind_ok hactions
      cases hactions
      exact List.forall_mem_cons.mpr ⟨h.of_parameters hparams, ih hothers⟩

end Yields
end Vocabulary

namespace Compiler

variable {compiler : Compiler σ} {place : Nat} {rule : Rule} {compiled : CompiledRule σ}

/-- The steps of a compilation that succeeds. -/
theorem compile_steps (h : compiler.compile place rule = .ok compiled) :
    ∃ attributes shapes facts,
      attributeTables (compiler.ruleId place rule) [] [] rule.attributes =
        .ok (attributes, shapes) ∧
      factShapes (compiler.ruleId place rule) compiler.schemas [] rule.facts = .ok facts ∧
      compiler.predicate ⟨compiler.ruleId place rule, shapes, facts⟩ "predicate" rule.predicate =
        .ok compiled.formula ∧
      compiler.actionsFrom ⟨compiler.ruleId place rule, shapes, facts⟩ 0 rule.actions =
        .ok compiled.actions ∧
      compiled.id = compiler.ruleId place rule ∧ compiled.attributes = attributes ∧
      compiled.facts = rule.facts := by
  unfold compile at h
  obtain ⟨⟨attributes, shapes⟩, hattributes, h⟩ := exists_of_bind_ok h
  obtain ⟨facts, hfacts, h⟩ := exists_of_bind_ok h
  obtain ⟨formula, hformula, h⟩ := exists_of_bind_ok h
  obtain ⟨actions, hactions, h⟩ := exists_of_bind_ok h
  cases h
  exact ⟨attributes, shapes, facts, hattributes, hfacts, hformula, hactions, rfl, rfl, rfl⟩

/-- What the vocabulary yields in every scope belongs to all parts of a compiled rule. -/
theorem forall_parts_of_compile {P : Term σ → Prop} (h : compiler.compile place rule = .ok compiled)
    (hyields : ∀ scope, compiler.Yields scope P) : ∀ part ∈ compiled.parts, P part := by
  obtain ⟨attributes, shapes, facts, -, -, hformula, hactions, -⟩ := compile_steps h
  exact CompiledRule.forall_parts.mpr
    ⟨(hyields _).of_predicate hformula, (hyields _).of_actionsFrom hactions⟩

end Compiler
end Rulebook
