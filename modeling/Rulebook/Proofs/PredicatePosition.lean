import Rulebook.Proofs.Identifiers

/-!
# Predicates and operands of a conjunction

Both stand where a truth value is needed. Whether an expression may be a predicate is decided by what
kind of expression it is, and whether it may be an operand by the shape of its values, which says less
of an object than of anything else. `predicate_as_operand` names the expressions that are an operand
only. A truth value that is declared as something else is a predicate only; every other expression is
both or neither, with the same outcome.
-/
namespace Rulebook

variable {σ : Type}

/-- A truth value declared as something else. -/
def Expression.Misdeclared : Expression → Prop
  | .value (some kind) (.bool b) => kind.accepts (.bool b) = false
  | _ => False

/-- The shape of the values says nothing, and yet the expression is known to have no truth value or
is declared to have none. -/
inductive Expression.OperandOnly (functions : Table (Function σ)) : Expression → Prop where
  | anything {v : Json} : placeholder? v = none → (∀ b, v ≠ .bool b) → v ≠ .null →
      OperandOnly functions (.value (some .any) v)
  | object {kind : Option Kind} {members : List (String × Json)} :
      kind = none ∨ kind = some .object → OperandOnly functions (.value kind (.object members))
  | function {name : String} {function : Function σ} {params : List (String × Expression)} :
      Table.get? functions name = some function → function.returns = .object →
      OperandOnly functions (.function name params)

/-- Such a term is no predicate, whatever its shape. -/
def Term.OperandOnly : Term σ → Prop
  | .constant _ _ => True
  | .call _ function _ => function.returns = .object
  | _ => False

/-- The formula is true. -/
def Formula.passes (env : Environment) (formula : Formula σ) : Evaluation σ Bool := do
  pure ((← formula.test env) = .yes)

namespace Formula

variable {env : Environment}

theorem passes_congr {formula formula' : Formula σ} (h : formula.test env = formula'.test env) :
    formula.passes env = formula'.passes env := by
  rw [passes, passes, h]

theorem passes_and_singleton (t : Term σ) : (and [t]).passes env = (value t).passes env := by
  simp only [passes, test, testAll, bind_assoc]
  refine congrArg _ (funext fun v => congrArg _ (funext fun truth => ?_))
  cases truth <;> rfl

theorem test_value_formula (formula : Formula σ) :
    (value (.formula formula)).test env = formula.test env := by
  have hback : ∀ truth : Truth,
      (liftExcept (Truth.ofJson truth.toJson) : Evaluation σ Truth) = pure truth := by
    intro truth
    rw [Truth.ofJson_toJson]
    rfl
  simp only [test, Term.evaluate, bind_assoc, pure_bind, hback, bind_pure]

end Formula

namespace Vocabulary

variable {language : PatternLanguage} {words : Vocabulary σ} {scope : Scope} {place : String}
  {e : Expression} {t : Term σ} {formula : Formula σ}

theorem term_at (h : words.term scope place e = .ok t) (place' : String) :
    words.term scope place' e = .ok t := by
  have hscope : scope.Alike Eq scope := by
    refine ⟨rfl, fun name => ?_⟩
    cases scope.facts.get? name with
    | none => exact .none
    | some shape => exact .some rfl
  obtain ⟨t', ht', hsame⟩ := (words.mirrors_self hscope).of_term place' h
  rw [ht', hsame]

theorem make_and_iff (language : PatternLanguage) :
    Operator.and.make language [t] = .ok formula ↔
      t.shape.isBooleanLike = true ∧ formula = .and [t] := by
  have hmake : Operator.and.make language [t] =
      (do Operator.and.requireBoolean 1 [t]; pure (.and [t])) := rfl
  rw [hmake, Operator.requireBoolean]
  split
  · next hshape => exact ⟨fun h => ⟨hshape, (Except.ok.inj h).symm⟩, fun h => by rw [h.2]; rfl⟩
  · next hshape => exact ⟨fun h => (nomatch h), fun h => absurd h.1 hshape⟩

/-- The conjunction asks nothing of its operand but the shape. -/
theorem predicate_and_iff
    (hand : Table.get? words.operators "and" = some (Operators.builtIn language .and)) :
    words.predicate scope place (.and [e]) = .ok formula ↔
      ∃ t, words.term scope place e = .ok t ∧ t.shape.isBooleanLike = true ∧
        formula = .and [t] := by
  unfold Expression.and Vocabulary.predicate
  dsimp only
  rw [Vocabulary.term.eq_def]
  simp only [hand, Vocabulary.terms]
  constructor
  · intro h
    obtain ⟨made, hmade, h⟩ := exists_of_bind_ok h
    obtain ⟨operands, hoperands, hmade⟩ := exists_of_bind_ok hmade
    obtain ⟨t, ht, hoperands⟩ := exists_of_bind_ok hoperands
    cases hoperands
    split at hmade
    · next formula' hformula =>
      cases hmade
      cases h
      obtain ⟨hshape, rfl⟩ := (make_and_iff language).mp hformula
      exact ⟨t, term_at ht place, hshape, rfl⟩
    · cases hmade
  · rintro ⟨t, ht, hshape, rfl⟩
    have hformula : (Operators.builtIn language .and).make [t] = .ok (.and [t]) :=
      (make_and_iff language).mpr ⟨hshape, rfl⟩
    simp only [term_at ht, bind, Except.bind, pure, Except.pure, hformula]
    rfl

/-- What is made a formula of has the shape for it, and the formula is true if its value is. -/
theorem passes_of_asFormula (h : asFormula scope place t = .ok formula) :
    t.shape.isBooleanLike = true ∧
      ∀ env, formula.passes env = (Formula.value t).passes env := by
  cases t with
  | formula made =>
    cases h
    exact ⟨rfl, fun env => Formula.passes_congr (Formula.test_value_formula formula).symm⟩
  | call name function params =>
    unfold asFormula at h
    dsimp only at h
    split at h
    · next hreturns =>
      cases h
      exact ⟨by rw [Term.shape, hreturns]; rfl, fun _ => rfl⟩
    · next hreturns =>
      cases h
      exact ⟨by rw [Term.shape, hreturns]; rfl, fun _ => rfl⟩
    · cases h
  | reference r =>
    unfold asFormula at h
    dsimp only at h
    split at h
    · next hshape =>
      cases h
      exact ⟨hshape, fun _ => rfl⟩
    · cases h
  | constant _ _ | list _ => cases h

theorem asFormula_iff :
    (∃ formula, asFormula scope place t = .ok formula) ↔
      t.shape.isBooleanLike = true ∧ ¬ t.OperandOnly := by
  cases t with
  | formula made => exact ⟨fun _ => ⟨rfl, id⟩, fun _ => ⟨made, rfl⟩⟩
  | call name function params =>
    unfold asFormula
    cases hreturns : function.returns <;>
      simp [hreturns, Term.shape, Shape.ofKind, Shape.isBooleanLike, Term.OperandOnly]
  | reference r =>
    unfold asFormula
    cases hshape : r.shape.isBooleanLike <;> simp [hshape, Term.shape, Term.OperandOnly]
  | constant value shape =>
    constructor
    · rintro ⟨formula, h⟩
      cases h
    · rintro ⟨-, honly⟩
      exact absurd trivial honly
  | list items =>
    constructor
    · rintro ⟨formula, h⟩
      cases h
    · rintro ⟨hshape, -⟩
      cases items <;> cases hshape

/-- Where the expression is not a constant, the term that it gives decides. -/
theorem predicate_iff_of_term
    (hpredicate : words.predicate scope place e =
      (do asFormula scope place (← words.term scope place e)))
    (honly : ∀ t, words.term scope place e = .ok t →
      (t.OperandOnly ↔ e.OperandOnly words.functions)) :
    (∃ formula, words.predicate scope place e = .ok formula) ↔
      (∃ t, words.term scope place e = .ok t ∧ t.shape.isBooleanLike = true) ∧
        ¬ e.OperandOnly words.functions := by
  rw [hpredicate]
  constructor
  · rintro ⟨formula, hformula⟩
    obtain ⟨t, ht, hformula⟩ := exists_of_bind_ok hformula
    obtain ⟨hshape, hnot⟩ := asFormula_iff.mp ⟨formula, hformula⟩
    exact ⟨⟨t, ht, hshape⟩, fun h => hnot ((honly t ht).mpr h)⟩
  · rintro ⟨⟨t, ht, hshape⟩, hnot⟩
    rw [ht]
    exact asFormula_iff.mpr ⟨hshape, fun h => hnot ((honly t ht).mp h)⟩

theorem constant_iff {kind : Option Kind} {v : Json} (hnull : v ≠ .null) :
    (∃ t : Term σ, scope.constant place kind v = .ok t ∧ t.shape.isBooleanLike = true) ↔
      (∀ declared, kind = some declared → declared.accepts v = true) ∧
        (Shape.ofKind (kind.getD (.of v))).isBooleanLike = true := by
  unfold Scope.constant
  cases kind with
  | none => simp [Term.ofJson, Term.shape]
  | some declared =>
    have hvalue : v.isNull = false := by cases v <;> first | rfl | exact absurd rfl hnull
    cases haccepts : declared.accepts v <;> simp [haccepts, hvalue, Term.shape]

/-- A constant that is no truth value is an operand only if nothing is known of its shape. -/
theorem operandOnly_of_constant {functions : Table (Function σ)} {kind : Option Kind} {v : Json}
    (hplain : placeholder? v = none) (hbool : ∀ b, v ≠ .bool b) (hnull : v ≠ .null)
    (haccepts : ∀ declared, kind = some declared → declared.accepts v = true)
    (hshape : (Shape.ofKind (kind.getD (.of v))).isBooleanLike = true) :
    (Expression.value kind v).OperandOnly functions := by
  cases kind with
  | none =>
    cases v with
    | object members => exact .object (.inl rfl)
    | bool b => exact absurd rfl (hbool b)
    | null => exact absurd rfl hnull
    | number n => cases n <;> cases hshape
    | string | array => cases hshape
  | some declared =>
    have hfits := haccepts declared rfl
    cases declared with
    | any => exact .anything hplain hbool hnull
    | object =>
      cases v with
      | object members => exact .object (.inr rfl)
      | null => exact absurd rfl hnull
      | bool | number | string | array => cases hfits
    | boolean =>
      cases v with
      | bool b => exact absurd rfl (hbool b)
      | null => exact absurd rfl hnull
      | number | string | array | object => cases hfits
    | integer | float | string | datetime | list => cases hshape

theorem predicate_constant_iff {kind : Option Kind} {v : Json} (hplain : placeholder? v = none)
    (h : ¬ (Expression.value kind v).Misdeclared) :
    (∃ formula, words.predicate scope place (.value kind v) = .ok formula) ↔
      (∃ t, words.term scope place (.value kind v) = .ok t ∧ t.shape.isBooleanLike = true) ∧
        ¬ (Expression.value kind v).OperandOnly words.functions := by
  have hother : (∀ b, v ≠ .bool b) → v ≠ .null →
      ((∃ t : Term σ, scope.constant place kind v = .ok t ∧ t.shape.isBooleanLike = true) ∧
        ¬ (Expression.value kind v).OperandOnly words.functions) = False := by
    intro hbool hnull
    rw [constant_iff hnull]
    exact eq_false fun ⟨⟨haccepts, hshape⟩, hnot⟩ =>
      hnot (operandOnly_of_constant hplain hbool hnull haccepts hshape)
  unfold Vocabulary.predicate
  rw [Vocabulary.term.eq_def]
  simp only [hplain]
  cases v with
  | null =>
    refine iff_of_true ⟨_, rfl⟩ ⟨?_, ?_⟩
    · cases kind with
      | none => exact ⟨_, rfl, rfl⟩
      | some declared => cases declared <;> exact ⟨_, rfl, rfl⟩
    · rintro (⟨-, -, hnull⟩ | _)
      exact hnull rfl
  | bool b =>
    refine iff_of_true ⟨_, rfl⟩ ⟨(constant_iff (by simp)).mpr ?_, ?_⟩
    · cases kind with
      | none => exact ⟨by simp, rfl⟩
      | some declared =>
        cases declared <;>
          simp_all [Expression.Misdeclared, Kind.accepts, Shape.ofKind, Shape.isBooleanLike]
    · rintro (⟨-, hbool, -⟩ | _)
      exact hbool b rfl
  | number | string | array | object =>
    rw [hother (by simp) (by simp), iff_false]
    exact fun ⟨_, hformula⟩ => nomatch hformula

/-- An expression is a predicate if it is an operand of a conjunction, apart from those that are an
operand only. -/
theorem predicate_iff (h : ¬ e.Misdeclared) :
    (∃ formula, words.predicate scope place e = .ok formula) ↔
      (∃ t, words.term scope place e = .ok t ∧ t.shape.isBooleanLike = true) ∧
        ¬ e.OperandOnly words.functions := by
  cases e with
  | value kind v =>
    cases hplain : placeholder? v with
    | none => exact predicate_constant_iff hplain h
    | some text =>
      refine predicate_iff_of_term ?_ fun t ht => ?_
      · unfold Vocabulary.predicate
        simp only [hplain]
      · rw [Vocabulary.term.eq_def] at ht
        simp only [hplain] at ht
        obtain ⟨r, -, ht⟩ := exists_of_bind_ok ht
        cases ht
        refine iff_of_false id ?_
        rintro (⟨hnone, -, -⟩ | _)
        · cases hplain.symm.trans hnone
        · cases hplain
  | values items =>
    apply iff_of_false
    · rintro ⟨formula, hformula⟩
      cases hformula
    · rintro ⟨⟨t, ht, hshape⟩, -⟩
      rw [Vocabulary.term.eq_def] at ht
      obtain ⟨ts, -, ht⟩ := exists_of_bind_ok ht
      cases ht
      cases ts <;> cases hshape
  | operator name operands =>
    refine predicate_iff_of_term rfl fun t ht => ?_
    rw [Vocabulary.term.eq_def] at ht
    dsimp only at ht
    split at ht
    · cases ht
    · obtain ⟨ts, -, ht⟩ := exists_of_bind_ok ht
      split at ht
      · cases ht
        apply iff_of_false id
        rintro ⟨⟩
      · cases ht
  | function name params =>
    refine predicate_iff_of_term rfl fun t ht => ?_
    rw [Vocabulary.term.eq_def] at ht
    dsimp only at ht
    split at ht
    · cases ht
    · next function hfunction =>
      obtain ⟨ts, -, ht⟩ := exists_of_bind_ok ht
      cases ht
      constructor
      · exact fun hreturns => .function hfunction hreturns
      · rintro (_ | _ | ⟨hfound, hreturns⟩)
        cases hfunction.symm.trans hfound
        exact hreturns
  | reference name path =>
    refine predicate_iff_of_term rfl fun t ht => ?_
    rw [Vocabulary.term.eq_def] at ht
    obtain ⟨r, -, ht⟩ := exists_of_bind_ok ht
    cases ht
    apply iff_of_false id
    rintro ⟨⟩

/-- As a predicate a truth value is taken whatever it is declared as. As an operand it is not. -/
theorem predicate_only_of_misdeclared (h : e.Misdeclared) :
    (∃ formula, words.predicate scope place e = .ok formula) ∧
      ∀ t, words.term scope place e ≠ .ok t := by
  unfold Expression.Misdeclared at h
  split at h
  · next kind b =>
    refine ⟨⟨_, rfl⟩, fun t ht => ?_⟩
    rw [Vocabulary.term.eq_def] at ht
    simp [placeholder?, Scope.constant, h] at ht
  · cases h

theorem constant_value {kind : Option Kind} {v : Json} (h : scope.constant place kind v = .ok t) :
    ∃ shape, t = .constant v shape := by
  unfold Scope.constant at h
  split at h
  · split at h
    · cases h
    · split at h <;> cases h <;> exact ⟨_, rfl⟩
  · cases h
    exact ⟨_, rfl⟩

/-- A predicate is true where its value is. -/
theorem predicate_passes (hformula : words.predicate scope place e = .ok formula)
    (ht : words.term scope place e = .ok t) (env : Environment) :
    formula.passes env = (Formula.value t).passes env := by
  have hmade : (do asFormula scope place (← words.term scope place e)) = .ok formula →
      formula.passes env = (Formula.value t).passes env := by
    intro hmade
    rw [ht] at hmade
    exact (passes_of_asFormula hmade).2 env
  unfold Vocabulary.predicate at hformula
  split at hformula
  · next kind v =>
    rw [Vocabulary.term.eq_def] at ht
    split at hformula
    · next hplain =>
      simp only [hplain] at ht
      obtain ⟨shape, rfl⟩ := constant_value ht
      cases hformula
      rfl
    · next hplain =>
      -- Null is neither true nor false, and the constant is false.
      simp only [hplain] at ht
      obtain ⟨shape, rfl⟩ := constant_value ht
      cases hformula
      rfl
    · cases hformula
    · exact hmade hformula
  · cases hformula
  · exact hmade hformula

end Vocabulary

namespace Compiler

variable {language : PatternLanguage} {compiler : Compiler σ} {place : Nat} {rule : Rule}
  {e : Expression}

/-- Unless something else keeps the rule from compiling, the predicate alone decides, and nothing else
of the compiled rule depends on it. -/
theorem compile_predicate (compiler : Compiler σ) (place : Nat) (rule : Rule) :
    (∀ e c, compiler.compile place { rule with predicate := e } ≠ .ok c) ∨
      ∃ (scope : Scope) (frame : CompiledRule σ), ∀ e,
        compiler.compile place { rule with predicate := e } =
          (compiler.predicate scope "predicate" e).map fun formula => { frame with formula } := by
  by_cases h : ∃ e c, compiler.compile place { rule with predicate := e } = .ok c
  · obtain ⟨e, c, hcompile⟩ := h
    obtain ⟨attributes, shapes, facts, hattributes, hfacts, -, hactions, -⟩ :=
      compile_steps hcompile
    have hid : ∀ predicate, compiler.ruleId place { rule with predicate } =
        compiler.ruleId place rule := fun _ => rfl
    rw [hid] at hattributes hfacts hactions
    refine .inr ⟨⟨compiler.ruleId place rule, shapes, facts⟩,
      ⟨compiler.ruleId place rule, c.formula, c.actions, attributes, rule.priority, rule.facts⟩,
      fun e' => ?_⟩
    simp only [compile, hid, hattributes, hfacts, hactions, bind, Except.bind]
    cases compiler.predicate ⟨compiler.ruleId place rule, shapes, facts⟩ "predicate" e' <;> rfl
  · exact .inl fun e c hcompile => h ⟨e, c, hcompile⟩

/-- A rule compiles with a predicate just if it compiles with the conjunction of that predicate alone
and the predicate is none of those that are an operand only. Both rules match alike. -/
theorem predicate_as_operand
    (hand : Table.get? compiler.operators "and" = some (Operators.builtIn language .and))
    (h : ¬ e.Misdeclared) :
    ((∃ c, compiler.compile place { rule with predicate := e } = .ok c) ↔
      (∃ c, compiler.compile place { rule with predicate := .and [e] } = .ok c) ∧
        ¬ e.OperandOnly compiler.functions) ∧
    ∀ c c', compiler.compile place { rule with predicate := e } = .ok c →
      compiler.compile place { rule with predicate := .and [e] } = .ok c' →
        ∀ env, c.holds env = c'.holds env := by
  rcases compile_predicate compiler place rule with hnone | ⟨scope, frame, hpredicate⟩
  · refine ⟨iff_of_false (fun ⟨c, hc⟩ => hnone e c hc) (fun ⟨⟨c, hc⟩, _⟩ => hnone _ c hc), ?_⟩
    exact fun c _ hc => absurd hc (hnone e c)
  · have hcompiles : ∀ e', (∃ c, compiler.compile place { rule with predicate := e' } = .ok c) ↔
        ∃ formula, compiler.predicate scope "predicate" e' = .ok formula := by
      intro e'
      rw [hpredicate]
      constructor
      · rintro ⟨c, hc⟩
        obtain ⟨formula, hformula, -⟩ := exists_of_map_ok hc
        exact ⟨formula, hformula⟩
      · rintro ⟨formula, hformula⟩
        exact ⟨_, by rw [hformula]; rfl⟩
    constructor
    · rw [hcompiles, hcompiles, Vocabulary.predicate_iff h]
      refine and_congr ⟨?_, ?_⟩ Iff.rfl
      · rintro ⟨t, ht, hshape⟩
        exact ⟨_, (Vocabulary.predicate_and_iff hand).mpr ⟨t, ht, hshape, rfl⟩⟩
      · rintro ⟨formula, hformula⟩
        obtain ⟨t, ht, hshape, -⟩ := (Vocabulary.predicate_and_iff hand).mp hformula
        exact ⟨t, ht, hshape⟩
    · intro c c' hc hc' env
      rw [hpredicate] at hc hc'
      obtain ⟨formula, hformula, rfl⟩ := exists_of_map_ok hc
      obtain ⟨conjunction, hconjunction, rfl⟩ := exists_of_map_ok hc'
      obtain ⟨t, ht, -, rfl⟩ := (Vocabulary.predicate_and_iff hand).mp hconjunction
      calc formula.passes env
        _ = (Formula.value t).passes env := Vocabulary.predicate_passes hformula ht env
        _ = (Formula.and [t]).passes env := (Formula.passes_and_singleton t).symm

/-- A compiler with nothing but the built-in operators. -/
def bareCompiler : Compiler Unit where
  operators := .standard
  functions := []
  actions := []
  schemas := []
  strict := true
  checksDates := false
  anonymous := fun _ => ""

/-- A rule about a truth value that it has as an attribute. -/
def openRule : Rule where
  attributes := [⟨"open", .boolean, .bool true⟩]
  facts := []
  predicate := .name "open"
  actions := []

theorem openRule_as_operand :
    ∃ c c', bareCompiler.compile 0 openRule = .ok c ∧
      bareCompiler.compile 0 { openRule with predicate := .and [.name "open"] } = .ok c' ∧
      ∀ env, c.holds env = c'.holds env := by
  have hand : Table.get? bareCompiler.operators "and" =
      some (Operators.builtIn Pattern.language .and) := rfl
  obtain ⟨hcompiles, hholds⟩ :=
    @predicate_as_operand _ _ bareCompiler 0 openRule (.name "open") hand id
  have hcompile : ∃ c, bareCompiler.compile 0 openRule = .ok c := ⟨_, rfl⟩
  obtain ⟨c, hc⟩ := hcompile
  obtain ⟨⟨c', hc'⟩, -⟩ := hcompiles.mp ⟨c, hc⟩
  exact ⟨c, c', hc, hc', hholds c c' hc hc'⟩

/-- An object is an operand of a conjunction and no predicate. -/
theorem object_operand_only :
    (∃ c, bareCompiler.compile 0
      { openRule with predicate := .and [.value none (.object [])] } = .ok c) ∧
    ¬ ∃ c, bareCompiler.compile 0 { openRule with predicate := .value none (.object []) } = .ok c :=
  ⟨⟨_, rfl⟩, fun ⟨_, hc⟩ => nomatch hc⟩

end Compiler
end Rulebook
