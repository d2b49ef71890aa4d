import Rulebook.Proofs.BuiltIn
import Rulebook.Proofs.Identifiers
import Rulebook.Proofs.Precision

/-!
# Rules under weaker schemas

Schemas are there to refuse rules, not to give them meaning. A rule that compiles compiles under
weaker schemas too, and what is made of it differs in the shapes of references only, which no
evaluation looks at.
-/
namespace Rulebook

variable {σ : Type}

mutual

/-- The term without the shapes of its references. -/
def Term.unshaped : Term σ → Term σ
  | .constant value shape => .constant value shape
  | .list items => .list (Term.unshapedItems items)
  | .reference r => .reference { r with shape := .any }
  | .call name function params => .call name function (Term.unshapedParams params)
  | .formula formula => .formula formula.unshaped

def Term.unshapedItems : List (Term σ) → List (Term σ)
  | [] => []
  | item :: rest => item.unshaped :: Term.unshapedItems rest

def Term.unshapedParams : List (String × Term σ) → List (String × Term σ)
  | [] => []
  | (name, param) :: rest => (name, param.unshaped) :: Term.unshapedParams rest

def Formula.unshaped : Formula σ → Formula σ
  | .constant truth => .constant truth
  | .value operand => .value operand.unshaped
  | .and operands => .and (Term.unshapedItems operands)
  | .or operands => .or (Term.unshapedItems operands)
  | .not operand => .not operand.unshaped
  | .check check operand => .check check operand.unshaped
  | .relation relation left right => .relation relation left.unshaped right.unshaped
  | .matchesPattern subject pattern => .matchesPattern subject.unshaped pattern
  | .matchesTerm language subject pattern =>
    .matchesTerm language subject.unshaped pattern.unshaped
  | .contains containment collection elements =>
    .contains containment collection.unshaped elements.unshaped

end

def CompiledAction.unshaped (action : CompiledAction σ) : CompiledAction σ :=
  { action with params := Term.unshapedParams action.params }

def CompiledRule.unshaped (rule : CompiledRule σ) : CompiledRule σ :=
  { rule with formula := rule.formula.unshaped, actions := rule.actions.map CompiledAction.unshaped }

section Evaluate

variable (env : Environment)

mutual

/-- Evaluation does not look at the shapes of references. -/
theorem Term.evaluate_unshaped : ∀ t : Term σ, t.unshaped.evaluate env = t.evaluate env
  | .constant _ _ => rfl
  | .list items => by
    rw [Term.unshaped, Term.evaluate, Term.evaluate, Term.evaluateItems_unshaped items]
  | .reference _ => rfl
  | .call _ _ params => by
    rw [Term.unshaped, Term.evaluate, Term.evaluate, Term.evaluateParams_unshaped [] params]
  | .formula formula => by
    rw [Term.unshaped, Term.evaluate, Term.evaluate, Formula.test_unshaped formula]

theorem Term.evaluateItems_unshaped : ∀ items : List (Term σ),
    Term.evaluateItems env (Term.unshapedItems items) = Term.evaluateItems env items
  | [] => rfl
  | item :: rest => by
    rw [Term.unshapedItems, Term.evaluateItems, Term.evaluateItems, Term.evaluate_unshaped item,
      Term.evaluateItems_unshaped rest]

theorem Term.evaluateParams_unshaped : ∀ (arguments : Arguments) (params : List (String × Term σ)),
    Term.evaluateParams env arguments (Term.unshapedParams params) =
      Term.evaluateParams env arguments params
  | _, [] => rfl
  | arguments, (name, param) :: rest => by
    rw [Term.unshapedParams, Term.evaluateParams, Term.evaluateParams, Term.evaluate_unshaped param]
    refine congrArg _ (funext fun value => ?_)
    exact Term.evaluateParams_unshaped (Table.put arguments name value) rest

theorem Formula.test_unshaped : ∀ formula : Formula σ, formula.unshaped.test env = formula.test env
  | .constant _ => rfl
  | .value operand => by
    rw [Formula.unshaped, Formula.test, Formula.test, Term.evaluate_unshaped operand]
  | .and operands => by
    rw [Formula.unshaped, Formula.test, Formula.test, Formula.testAll_unshaped operands]
  | .or operands => by
    rw [Formula.unshaped, Formula.test, Formula.test, Formula.testAny_unshaped operands]
  | .not operand => by
    rw [Formula.unshaped, Formula.test, Formula.test, Term.evaluate_unshaped operand]
  | .check _ operand => by
    rw [Formula.unshaped, Formula.test, Formula.test, Term.evaluate_unshaped operand]
  | .relation _ left right => by
    rw [Formula.unshaped, Formula.test, Formula.test, Term.evaluate_unshaped left,
      Term.evaluate_unshaped right]
  | .matchesPattern subject _ => by
    rw [Formula.unshaped, Formula.test, Formula.test, Term.evaluate_unshaped subject]
  | .matchesTerm _ subject pattern => by
    rw [Formula.unshaped, Formula.test, Formula.test, Term.evaluate_unshaped subject,
      Term.evaluate_unshaped pattern]
  | .contains _ collection elements => by
    rw [Formula.unshaped, Formula.test, Formula.test, Term.evaluate_unshaped collection,
      Term.evaluate_unshaped elements]

theorem Formula.testAll_unshaped : ∀ operands : List (Term σ),
    Formula.testAll env (Term.unshapedItems operands) = Formula.testAll env operands
  | [] => rfl
  | operand :: rest => by
    rw [Term.unshapedItems, Formula.testAll, Formula.testAll, Term.evaluate_unshaped operand,
      Formula.testAll_unshaped rest]

theorem Formula.testAny_unshaped : ∀ operands : List (Term σ),
    Formula.testAny env (Term.unshapedItems operands) = Formula.testAny env operands
  | [] => rfl
  | operand :: rest => by
    rw [Term.unshapedItems, Formula.testAny, Formula.testAny, Term.evaluate_unshaped operand,
      Formula.testAny_unshaped rest]

end

theorem CompiledRule.holds_unshaped (rule : CompiledRule σ) :
    rule.unshaped.holds env = rule.holds env := by
  rw [holds, holds, unshaped, Formula.test_unshaped]

theorem CompiledRule.bind_unshaped (rule : CompiledRule σ) :
    rule.unshaped.bind env = rule.bind env := by
  have hactions : ∀ actions : List (CompiledAction σ),
      bindActions env (actions.map CompiledAction.unshaped) = bindActions env actions := by
    intro actions
    induction actions with
    | nil => rfl
    | cons action rest ih =>
      rw [List.map_cons, bindActions, bindActions, ih, CompiledAction.unshaped,
        Term.evaluateParams_unshaped]
  exact hactions rule.actions

end Evaluate

/-- The terms are the same but for the shapes of references, and operators take the second wherever
they take the first. -/
def Term.Loosens (t t' : Term σ) : Prop :=
  t'.unshaped = t.unshaped ∧ t.shape.Looser t'.shape

namespace Term

theorem Loosens.refl (t : Term σ) : t.Loosens t := ⟨rfl, .same _⟩

theorem loosens_formula {formula formula' : Formula σ} (h : formula'.unshaped = formula.unshaped) :
    (Term.formula formula).Loosens (.formula formula') := by
  refine ⟨?_, .same _⟩
  rw [unshaped, unshaped, h]

theorem unshapedItems_eq {items items' : List (Term σ)} (h : List.Forall₂ Loosens items items') :
    unshapedItems items' = unshapedItems items := by
  induction h with
  | nil => rfl
  | cons hitem _ ih => rw [unshapedItems, unshapedItems, hitem.1, ih]

theorem unshapedParams_eq {params params' : List (String × Term σ)}
    (h : List.Forall₂ (fun p p' => p.1 = p'.1 ∧ p.2.Loosens p'.2) params params') :
    unshapedParams params' = unshapedParams params := by
  induction h with
  | nil => rfl
  | cons hparam _ ih => rw [unshapedParams, unshapedParams, hparam.1, hparam.2.1, ih]

theorem list_shape (items : List (Term σ)) : ∃ element, (Term.list items).shape = .list element := by
  cases items with
  | nil => exact ⟨_, rfl⟩
  | cons first rest => exact ⟨_, rfl⟩

theorem eq_formula_of_unshaped {t : Term σ} {formula : Formula σ}
    (h : t.unshaped = .formula formula) : ∃ made, t = .formula made ∧ made.unshaped = formula := by
  cases t with
  | formula made => exact ⟨made, rfl, Term.formula.inj h⟩
  | constant | list | reference | call => cases h

theorem eq_call_of_unshaped {t : Term σ} {name : String} {function : Function σ}
    {params : List (String × Term σ)} (h : t.unshaped = .call name function params) :
    ∃ given, t = .call name function given := by
  cases t with
  | call name' function' given =>
    obtain ⟨rfl, rfl, -⟩ := Term.call.inj h
    exact ⟨given, rfl⟩
  | constant | list | reference | formula => cases h

theorem eq_reference_of_unshaped {t : Term σ} {r : Reference} (h : t.unshaped = .reference r) :
    ∃ given, t = .reference given := by
  cases t with
  | reference given => exact ⟨given, rfl⟩
  | constant | list | call | formula => cases h

theorem constantText_unshaped (t : Term σ) : t.unshaped.constantText? = t.constantText? := by
  cases t <;> rfl

end Term

namespace Operator

variable {language : PatternLanguage} {operator : Operator} {operands operands' : List (Term σ)}
  {formula : Formula σ}
  {left left' right right' : Term σ}

theorem requireBoolean_loosens {position : Nat} (hoperands : List.Forall₂ Term.Loosens operands operands')
    (h : operator.requireBoolean position operands = .ok ()) :
    operator.requireBoolean position operands' = .ok () := by
  induction hoperands generalizing position with
  | nil => rfl
  | cons hoperand _ ih =>
    unfold requireBoolean at h ⊢
    split at h
    · next hshape =>
      rw [if_pos (hoperand.2.isBooleanLike hshape)]
      exact ih h
    · cases h

theorem require_loosens {made made' : Formula σ}
    (h : (do operator.requireBoolean 1 operands; pure made) = Except.ok formula)
    (hoperands : List.Forall₂ Term.Loosens operands operands')
    (hmade : made'.unshaped = made.unshaped) :
    ∃ formula', (do operator.requireBoolean 1 operands'; pure made') = Except.ok formula' ∧
      formula'.unshaped = formula.unshaped := by
  obtain ⟨_, hrequire, hpure⟩ := exists_of_bind_ok h
  cases hpure
  exact ⟨made', by rw [requireBoolean_loosens hoperands hrequire]; rfl, hmade⟩

theorem makeRelation_loosens {relation : Relation} (hleft : left.Loosens left')
    (hright : right.Loosens right') (h : operator.makeRelation relation left right = .ok formula) :
    ∃ formula', operator.makeRelation relation left' right' = .ok formula' ∧
      formula'.unshaped = formula.unshaped := by
  have hmade : (Formula.relation relation left' right').unshaped =
      (Formula.relation relation left right).unshaped := by
    rw [Formula.unshaped, Formula.unshaped, hleft.1, hright.1]
  cases relation with
  | equal =>
    obtain ⟨hcomparable, rfl⟩ := checked_of_ite h
    exact ⟨_, if_pos (hleft.2.isEquatableWith hright.2 hcomparable), hmade⟩
  | less | lessOrEqual | greater | greaterOrEqual =>
    obtain ⟨hcomparable, rfl⟩ := checked_of_ite h
    exact ⟨_, if_pos (hleft.2.isOrderedWith hright.2 hcomparable), hmade⟩

theorem makeMatch_loosens (hleft : left.Loosens left') (hright : right.Loosens right')
    (h : makeMatch language left right = .ok formula) :
    ∃ formula', makeMatch language left' right' = .ok formula' ∧
      formula'.unshaped = formula.unshaped := by
  have htext : right'.constantText? = right.constantText? := by
    rw [← Term.constantText_unshaped, hright.1, Term.constantText_unshaped]
  unfold makeMatch at h ⊢
  split at h
  · cases h
  · next hsubject =>
    split at h
    · cases h
    · next hpattern =>
      rw [Bool.not_eq_true, Bool.not_eq_false'] at hsubject hpattern
      rw [hleft.2.isTextLike hsubject, hright.2.isTextLike hpattern, Bool.not_true,
        if_neg Bool.false_ne_true, if_neg Bool.false_ne_true]
      unfold makePattern at h ⊢
      rw [htext]
      split at h
      · cases h
        exact ⟨_, rfl, by rw [Formula.unshaped, Formula.unshaped, hleft.1, hright.1]⟩
      · split at h
        · cases h
          exact ⟨_, rfl, by rw [Formula.unshaped, Formula.unshaped, hleft.1]⟩
        · cases h

theorem makeContains_loosens {containment : Containment} (hleft : left.Loosens left')
    (hright : right.Loosens right')
    (h : operator.makeContains containment left right = .ok formula) :
    ∃ formula', operator.makeContains containment left' right' = .ok formula' ∧
      formula'.unshaped = formula.unshaped := by
  obtain ⟨hcollection, rfl⟩ := checked_of_ite h
  refine ⟨_, if_pos (hleft.2.isCollectionLike hcollection), ?_⟩
  rw [Formula.unshaped, Formula.unshaped, hleft.1, hright.1]

/-- A built-in operator takes what loosens its operands, and makes the same formula of it. -/
theorem make_loosens (hoperands : List.Forall₂ Term.Loosens operands operands')
    (h : operator.make language operands = .ok formula) :
    ∃ formula', operator.make language operands' = .ok formula' ∧
      formula'.unshaped = formula.unshaped := by
  have hitems := Term.unshapedItems_eq hoperands
  unfold make at h
  dsimp only at h
  -- Two operators take any number of operands, four take one, and eight take two.
  split at h
  · cases hoperands with
    | cons hfirst hrest =>
      refine require_loosens h (.cons hfirst hrest) ?_
      rw [Formula.unshaped, Formula.unshaped, hitems]
  · cases hoperands with
    | cons hfirst hrest =>
      refine require_loosens h (.cons hfirst hrest) ?_
      rw [Formula.unshaped, Formula.unshaped, hitems]
  · obtain ⟨operand', _, hoperand, ⟨⟩, rfl⟩ := List.forall₂_cons_left_iff.mp hoperands
    refine require_loosens h hoperands ?_
    rw [Formula.unshaped, Formula.unshaped, hoperand.1]
  · obtain ⟨operand', _, hoperand, ⟨⟩, rfl⟩ := List.forall₂_cons_left_iff.mp hoperands
    refine require_loosens h hoperands ?_
    rw [Formula.unshaped, Formula.unshaped, hoperand.1]
  · obtain ⟨operand', _, hoperand, ⟨⟩, rfl⟩ := List.forall₂_cons_left_iff.mp hoperands
    refine require_loosens h hoperands ?_
    rw [Formula.unshaped, Formula.unshaped, hoperand.1]
  · obtain ⟨operand', _, hoperand, ⟨⟩, rfl⟩ := List.forall₂_cons_left_iff.mp hoperands
    cases h
    exact ⟨_, rfl, by rw [Formula.unshaped, Formula.unshaped, hoperand.1]⟩
  all_goals first
    | cases h
    | obtain ⟨left', _, hleft, hrest, rfl⟩ := List.forall₂_cons_left_iff.mp hoperands
      obtain ⟨right', _, hright, ⟨⟩, rfl⟩ := List.forall₂_cons_left_iff.mp hrest
  all_goals first
    | exact makeRelation_loosens hleft hright h
    | exact makeMatch_loosens hleft hright h
    | exact makeContains_loosens hleft hright h

end Operator

theorem CompiledAction.map_unshaped_eq {actions actions' : List (CompiledAction σ)}
    (h : List.Forall₂ (CompiledAction.Mirrors Term.Loosens) actions actions') :
    actions'.map CompiledAction.unshaped = actions.map CompiledAction.unshaped := by
  induction h with
  | nil => rfl
  | cons haction _ ih =>
    obtain ⟨hname, hsame, hparams⟩ := haction
    rw [List.map_cons, List.map_cons, ih, unshaped, unshaped, hname, hsame,
      Term.unshapedParams_eq hparams]

theorem CompiledRule.masked_unshaped (rule : CompiledRule σ) :
    rule.unshaped.masked = rule.masked.unshaped := by
  have hname : rule.unshaped.name? = rule.name? := rfl
  unfold masked
  rw [hname]
  split
  · split <;> rfl
  · rfl

/-- A term that can have a truth value can have one when it is loosened. -/
theorem Vocabulary.asFormula_loosens {scope scope' : Scope} {place : String} {t t' : Term σ}
    {formula : Formula σ} (h : asFormula scope place t = .ok formula) (ht : t.Loosens t')
    (place' : String) :
    ∃ formula', asFormula scope' place' t' = .ok formula' ∧
      (Term.formula formula).Loosens (.formula formula') := by
  have hvalue : (Formula.value t').unshaped = (Formula.value t).unshaped := by
    rw [Formula.unshaped, Formula.unshaped, ht.1]
  cases t with
  | formula made =>
    cases h
    obtain ⟨made', rfl, hmade⟩ := Term.eq_formula_of_unshaped ht.1
    exact ⟨made', rfl, Term.loosens_formula hmade⟩
  | call name function params =>
    obtain ⟨params', rfl⟩ := Term.eq_call_of_unshaped ht.1
    unfold asFormula at h ⊢
    dsimp only at h ⊢
    split at h
    · cases h
      exact ⟨_, rfl, Term.loosens_formula hvalue⟩
    · cases h
      exact ⟨_, rfl, Term.loosens_formula hvalue⟩
    · cases h
  | reference r =>
    obtain ⟨r', rfl⟩ := Term.eq_reference_of_unshaped ht.1
    unfold asFormula at h ⊢
    dsimp only at h ⊢
    split at h
    · next hshape =>
      cases h
      exact ⟨_, if_pos (ht.2.isBooleanLike hshape), Term.loosens_formula hvalue⟩
    · cases h
  | constant _ _ => cases h
  | list _ => cases h

/-- Compiling under weaker schemas goes the same ways. -/
theorem Vocabulary.mirrors_weakened {words : Vocabulary σ} (hbuiltIn : words.operators.BuiltIn)
    (schemas' : Schemas) {scope scope' : Scope} (hscope : scope.Alike Shape.WeakensTo scope') :
    words.Mirrors { words with schemas := schemas' } scope scope' Term.Loosens where
  operators := rfl
  functions := rfl
  actions := rfl
  constant ht place' := ⟨_, Scope.constant_of_ok ht scope' place', .refl _⟩
  reference hr := by
    obtain ⟨shape, hr', hweaker⟩ := hscope.reference Shape.stable_weakensTo hr
    exact ⟨_, hr', rfl, hweaker.looser⟩
  list hitems := by
    obtain ⟨element, helement⟩ := Term.list_shape _
    obtain ⟨element', helement'⟩ := Term.list_shape _
    refine ⟨?_, ?_⟩
    · rw [Term.unshaped, Term.unshaped, Term.unshapedItems_eq hitems]
    · rw [helement, helement']
      exact .list element element'
  call hparams := by
    refine ⟨?_, .same _⟩
    rw [Term.unshaped, Term.unshaped, Term.unshapedParams_eq hparams]
  operator hrule hmake hoperands := by
    obtain ⟨language, operator, hoperator⟩ := hbuiltIn _ _ hrule
    rw [hoperator] at hmake ⊢
    obtain ⟨formula', hmake', hsame⟩ := Operator.make_loosens hoperands hmake
    exact ⟨formula', hmake', Term.loosens_formula hsame⟩
  truth truth := .refl _
  formula := asFormula_loosens

namespace Compiler

variable {compiler : Compiler σ} {place : Nat} {rule : Rule} {compiled : CompiledRule σ}

/-- A rule that compiles compiles under weaker schemas. It is made of the same operators, functions
and actions, with references to the same places, and it does the same in every environment. -/
theorem compile_weakened (hbuiltIn : compiler.operators.BuiltIn) {schemas' : Schemas}
    (hweaker : compiler.schemas.WeakenTo schemas') (h : compiler.compile place rule = .ok compiled)
    (anonymous : Nat → String) (place' : Nat) :
    ∃ compiled', { compiler with schemas := schemas', anonymous }.compile place' rule =
        .ok compiled' ∧
      compiled'.unshaped.masked = compiled.unshaped.masked ∧
      ∀ env, compiled'.holds env = compiled.holds env ∧ compiled'.bind env = compiled.bind env := by
  let weakened : Compiler σ := { compiler with schemas := schemas', anonymous }
  obtain ⟨formula, actions, hcompiled, hformula, hactions⟩ :=
    compile_of_mirrors (S := Shape.WeakensTo) (R := Term.Loosens) weakened place' hweaker
      (fun _ _ hscope => Vocabulary.mirrors_weakened hbuiltIn schemas' hscope) h
  let renamed : CompiledRule σ := { compiled with id := weakened.ruleId place' rule }
  have hsame : ({ renamed with formula, actions } : CompiledRule σ).unshaped = renamed.unshaped := by
    rw [CompiledRule.unshaped, CompiledRule.unshaped, Term.formula.inj hformula.1,
      CompiledAction.map_unshaped_eq hactions]
  refine ⟨_, hcompiled, ?_, fun env => ⟨?_, ?_⟩⟩
  · calc ({ renamed with formula, actions } : CompiledRule σ).unshaped.masked
      _ = renamed.unshaped.masked := by rw [hsame]
      _ = renamed.masked.unshaped := renamed.masked_unshaped
      _ = compiled.masked.unshaped := by rw [masked_of_compile h weakened place']
      _ = compiled.unshaped.masked := compiled.masked_unshaped.symm
  · calc ({ renamed with formula, actions } : CompiledRule σ).holds env
      _ = renamed.unshaped.holds env := by rw [← CompiledRule.holds_unshaped, hsame]
      _ = renamed.holds env := renamed.holds_unshaped env
      _ = compiled.holds env := rfl
  · calc ({ renamed with formula, actions } : CompiledRule σ).bind env
      _ = renamed.unshaped.bind env := by rw [← CompiledRule.bind_unshaped, hsame]
      _ = renamed.bind env := renamed.bind_unshaped env
      _ = compiled.bind env := rfl

/-- A vocabulary with two types of facts and one action. -/
def shelfWords : Vocabulary Unit where
  operators := .standard
  functions := []
  actions := [("order", ⟨fun _ _ outcome => (.ok (), outcome)⟩)]
  schemas := [("Box", .record [("size", .integer)]),
    ("Item", .record [("sizes", .list .integer), ("spares", .list .any)])]

def shelfCompiler : Compiler Unit :=
  { shelfWords with strict := true, checksDates := false, anonymous := fun _ => "" }

/-- Boxes are not known any more, and the sizes of an item may be anything; so the two lists of an
item, which were different, have one shape. -/
def looseSchemas : Schemas := [("Item", .record [("sizes", .list .any), ("spares", .list .any)])]

/-- Orders the sizes of an item one of whose lists is that of the box. -/
def shelfRule : Rule where
  attributes := [⟨"ruleName", .string, .string "shelf"⟩]
  facts := [⟨"item", "Item"⟩, ⟨"box", "Box"⟩]
  predicate := .operator "contains"
    [.values [.field "item" "sizes", .field "item" "spares"], .field "box" "size"]
  actions := [⟨"order", [("what", .field "item" "sizes")]⟩]

def shelfCompiled : CompiledRule Unit :=
  let sizes : Term Unit :=
    .reference ⟨.named "item", [⟨"sizes", false⟩], .list .integer, "item.sizes"⟩
  let spares : Term Unit :=
    .reference ⟨.named "item", [⟨"spares", false⟩], .list .any, "item.spares"⟩
  { id := "shelf"
    formula := .contains .all (.list [sizes, spares])
      (.reference ⟨.named "box", [⟨"size", false⟩], .integer, "box.size"⟩)
    actions := [⟨"order", ⟨fun _ _ outcome => (.ok (), outcome)⟩, [("what", sizes)]⟩]
    attributes := [("ruleName", .string "shelf")]
    priority := 0
    facts := [⟨"item", "Item"⟩, ⟨"box", "Box"⟩] }

theorem shelfRule_weakened :
    ∃ compiled', { shelfCompiler with schemas := looseSchemas, anonymous := toString }.compile 3
        shelfRule = .ok compiled' ∧
      compiled'.unshaped.masked = shelfCompiled.unshaped.masked ∧
      ∀ env, compiled'.holds env = shelfCompiled.holds env ∧
        compiled'.bind env = shelfCompiled.bind env := by
  have hcompile : shelfCompiler.compile 0 shelfRule = .ok shelfCompiled := by
    have hid : shelfCompiler.ruleId 0 shelfRule = "shelf" := rfl
    simp only [compile, hid]
    rfl
  have hweaker : shelfCompiler.schemas.WeakenTo looseSchemas := by
    intro typeName
    by_cases hitem : typeName = "Item"
    · subst hitem
      exact .record (.cons _ (.list (.any _)) (.cons _ (.same _) .nil))
    · have hloose : looseSchemas.resolve typeName = .any := by
        rw [Schemas.resolve, looseSchemas, Table.get?_cons, if_neg (Ne.symm hitem)]
        rfl
      rw [hloose]
      exact .any _
  have hbuiltIn : shelfCompiler.operators.BuiltIn := Operators.standard_builtIn
  exact compile_weakened hbuiltIn hweaker hcompile toString 3

end Compiler
end Rulebook
