import Rulebook.Proofs.BuiltIn
import Rulebook.Proofs.Declarations
import Rulebook.Proofs.KeptResults
import Rulebook.Proofs.PathConformance

/-!
# Values have their shapes

Rules that are compiled with the built-in operators are evaluated without a mismatch, as long as
none of their terms may hold anything. The static checks give each part of a rule what its own
evaluation relies on; the main result follows by induction on terms and formulas.

Functions outside the rules are assumed to keep to the kind that they declare. Nothing is said
about failures of other causes.
-/
namespace Rulebook

variable {σ : Type}

def Failure.IsMismatch : Failure → Prop
  | .mismatch _ _ => True
  | _ => False

/-- The function returns values of its kind, and fails for reasons of its own. -/
structure Function.Honest (function : Function σ) : Prop where
  value : ∀ arguments world v, (function.call arguments world).1 = .ok v →
    (Shape.ofKind function.returns).Holds v
  failure : ∀ arguments world failure, (function.call arguments world).1 = .error failure →
    ¬ failure.IsMismatch

/-- The term is not one that may hold anything, unless it is null, and its path meets no place that
may. -/
def Term.Known (declares : Reference.Base → Shape → Prop) : Term σ → Prop
  | .constant v shape => shape = .any → v = .null
  | .reference r => r.shape ≠ .any ∧ ∀ shape, declares r.base shape → r.path.Known shape
  | .call _ function _ => Shape.ofKind function.returns ≠ .any
  | .list _ | .formula _ => True

namespace Shape

/-- The value has the shape; where the shape says nothing, it is null. -/
def Fits (shape : Shape) (v : Json) : Prop := shape.Holds v ∧ (shape = .any → v = .null)

variable {shape other : Shape} {v w : Json}

theorem holds_ofKind {kind : Kind} (h : kind.accepts v = true) : (ofKind kind).Holds v := by
  cases kind <;> cases v <;> simp_all [Kind.accepts, ofKind, Holds]

theorem Fits.truth (h : shape.Fits v) (hshape : shape.isBooleanLike = true) :
    ∃ truth, Truth.ofJson v = .ok truth := by
  obtain ⟨hv, hany⟩ := h
  cases shape with
  | boolean => cases v <;> simp_all [Holds, Truth.ofJson]
  | any => rw [hany rfl]; exact ⟨_, rfl⟩
  | integer | float | string | datetime | list | record => cases hshape

theorem Fits.text (h : shape.Fits v) (hshape : shape.isTextLike = true) :
    v = .null ∨ ∃ s, v = .string s := by
  obtain ⟨hv, hany⟩ := h
  cases shape with
  | string => cases v <;> simp_all [Holds]
  | datetime => cases v <;> simp_all [Holds]
  | any => exact .inl (hany rfl)
  | boolean | integer | float | list | record => cases hshape

theorem Fits.collection (h : shape.Fits v) (hshape : shape.isCollectionLike = true) :
    v = .null ∨ ∃ items, v = .array items := by
  obtain ⟨hv, hany⟩ := h
  cases shape with
  | list element => cases v <;> simp_all [Holds]
  | any => exact .inl (hany rfl)
  | boolean | integer | float | string | datetime | record => cases hshape

theorem Fits.number (h : shape.Fits v) (hshape : shape.isNumeric = true) :
    v = .null ∨ ∃ n, v = .number n := by
  obtain ⟨hv, -⟩ := h
  cases shape with
  | integer => cases v <;> simp_all [Holds]
  | float => cases v <;> simp_all [Holds]
  | boolean | string | datetime | list | record | any => cases hshape

theorem ordered_cases (h : shape.isOrderedWith other = true) (hshape : shape ≠ .any)
    (hother : other ≠ .any) :
    shape = .boolean ∧ other = .boolean ∨
      shape.isTextLike = true ∧ other.isTextLike = true ∨
      shape.isNumeric = true ∧ other.isNumeric = true := by
  cases shape <;> cases other <;> simp_all [isOrderedWith, isNumeric, isTextLike]

/-- Values of shapes that have an order can be compared, unless one of them is null. -/
theorem Fits.compare (h : shape.Fits v) (h' : other.Fits w)
    (hshape : shape.isOrderedWith other = true) (hv : v ≠ .null) (hw : w ≠ .null) :
    ∃ order, v.compare w = .ok order := by
  have hleft : shape ≠ .any := fun hany => hv (h.2 hany)
  have hright : other ≠ .any := fun hany => hw (h'.2 hany)
  rcases ordered_cases hshape hleft hright with ⟨rfl, rfl⟩ | ⟨hl, hr⟩ | ⟨hl, hr⟩
  · obtain ⟨t, ht⟩ := h.truth rfl
    obtain ⟨t', ht'⟩ := h'.truth rfl
    cases v <;> cases w <;> simp_all [Truth.ofJson, Json.compare]
  · obtain ⟨s, rfl⟩ := (h.text hl).resolve_left hv
    obtain ⟨t, rfl⟩ := (h'.text hr).resolve_left hw
    exact ⟨_, rfl⟩
  · obtain ⟨m, rfl⟩ := (h.number hl).resolve_left hv
    obtain ⟨n, rfl⟩ := (h'.number hr).resolve_left hw
    exact ⟨_, rfl⟩

theorem haveShape_iff {items : List (Term σ)} :
    Term.haveShape shape items = true ↔ ∀ item ∈ items, item.shape = shape := by
  induction items with
  | nil => simp [Term.haveShape]
  | cons item rest ih => simp [Term.haveShape, ih]

/-- A list holds its items, whether or not they agree on a shape. -/
theorem list_fits {items : List (Term σ)} {vs : List Json}
    (h : ∀ v ∈ vs, ∃ item ∈ items, item.shape.Fits v) :
    (Term.list items).shape.Fits (.array vs) := by
  cases items with
  | nil =>
    refine ⟨holds_list.mpr (.inr ⟨vs, rfl, fun v _ => holds_any v⟩), fun hany => ?_⟩
    cases hany
  | cons first rest =>
    refine ⟨?_, fun hany => ?_⟩
    · rw [Term.shape]
      refine holds_list.mpr (.inr ⟨vs, rfl, fun v hv => ?_⟩)
      split
      · next hsame =>
        obtain ⟨item, hitem, hfits⟩ := h v hv
        rcases List.mem_cons.mp hitem with rfl | hitem
        · exact hfits.1
        · rw [← haveShape_iff.mp hsame item hitem]
          exact hfits.1
      · exact holds_any v
    · rw [Term.shape] at hany
      cases hany

end Shape

/-- What compiling a term in a scope makes sure of. -/
def Term.Checked (words : Vocabulary σ) (declares : Reference.Base → Shape → Prop) :
    Term σ → Prop
  | .constant v shape => shape.Holds v
  | .list _ => True
  | .reference r => ∃ shape, declares r.base shape ∧ r.path.check shape = .ok r.shape
  | .call name function _ => Table.get? words.functions name = some function
  | .formula made => made.Checked

namespace Evaluation

variable {words : Vocabulary σ} {declares : Reference.Base → Shape → Prop} {env : Environment}

/-- A result that is kept for a function has the kind that the function declares. -/
def KeepsKinds (words : Vocabulary σ) (session : Session σ) : Prop :=
  session.cache.All fun name _ v => ∀ function, Table.get? words.functions name = some function →
    (Shape.ofKind function.returns).Holds v

/-- No run from a session that keeps results of the declared kinds ends in a mismatch or leaves
another kind of session; what it gives is in `Q`. -/
abbrev Sound (words : Vocabulary σ) {α : Type} (evaluation : Evaluation σ α) (Q : α → Prop) :
    Prop :=
  Ensures (KeepsKinds words) (fun failure => ¬ failure.IsMismatch) evaluation Q

theorem call_sound {name : String} {function : Function σ}
    (hhonest : function.Honest) (hname : Table.get? words.functions name = some function)
    (arguments : Arguments) :
    Sound words (fun session => session.call name function arguments : Evaluation σ Json)
      (Shape.ofKind function.returns).Holds where
  session s hs := by
    refine Session.call_all hs fun world v hv held hheld => ?_
    rw [hname] at hheld
    cases hheld
    exact hhonest.value _ _ _ hv
  value s v hs hv := by
    rcases Session.call_result hs name function arguments with ⟨kept, hkept, hkind⟩ | hcall
    · obtain rfl : kept = v := Except.ok.inj (hkept.symm.trans hv)
      exact hkind function hname
    · exact hhonest.value _ _ v (hcall.symm.trans hv)
  failure s failure hs hf := by
    rcases Session.call_result hs name function arguments with ⟨kept, hkept, -⟩ | hcall
    · cases hkept.symm.trans hf
    · exact hhonest.failure _ _ failure (hcall.symm.trans hf)

/-- Where a truth value is needed, an operand that was checked has one. -/
theorem truth_sound {α : Type} {t : Term σ} {next : Truth → Evaluation σ α}
    (h : Sound words (t.evaluate env) t.shape.Fits) (hshape : t.shape.isBooleanLike = true)
    (hn : ∀ truth, Sound words (next truth) fun _ => True) :
    Sound words (do
      let v ← t.evaluate env
      let truth ← liftExcept (Truth.ofJson v)
      next truth) fun _ => True := by
  refine h.bind fun v hv => ?_
  obtain ⟨truth, htruth⟩ := hv.truth hshape
  exact (Ensures.lift_ok htruth trivial).bind fun truth (_ : True) => hn truth

theorem testAll_sound {operands : List (Term σ)}
    (h : ∀ operand ∈ operands, Sound words (operand.evaluate env) operand.shape.Fits)
    (hshape : ∀ operand ∈ operands, operand.shape.isBooleanLike = true) :
    Sound words (Formula.testAll env operands) fun _ => True := by
  induction operands with
  | nil => exact Ensures.pure trivial
  | cons operand rest ih =>
    rw [List.forall_mem_cons] at h hshape
    refine truth_sound h.1 hshape.1 fun truth => ?_
    split
    · exact ih h.2 hshape.2
    · exact Ensures.pure trivial

theorem testAny_sound {operands : List (Term σ)}
    (h : ∀ operand ∈ operands, Sound words (operand.evaluate env) operand.shape.Fits)
    (hshape : ∀ operand ∈ operands, operand.shape.isBooleanLike = true) :
    Sound words (Formula.testAny env operands) fun _ => True := by
  induction operands with
  | nil => exact Ensures.pure trivial
  | cons operand rest ih =>
    rw [List.forall_mem_cons] at h hshape
    refine truth_sound h.1 hshape.1 fun truth => ?_
    split
    · exact Ensures.pure trivial
    · exact ih h.2 hshape.2

theorem relation_sound {relation : Relation} {left right : Term σ}
    (hleft : Sound words (left.evaluate env) left.shape.Fits)
    (hright : Sound words (right.evaluate env) right.shape.Fits)
    (hshape : relation = .equal ∨ left.shape.isOrderedWith right.shape = true) :
    Sound words ((Formula.relation relation left right).test env) fun _ => True := by
  refine hleft.bind fun v hv => ?_
  split
  · exact Ensures.pure trivial
  · next hv' =>
    refine hright.bind fun w hw => ?_
    split
    · exact Ensures.pure trivial
    · next hw' =>
      have hholds : ∃ b, relation.holds v w = .ok b := by
        rcases hshape with rfl | hordered
        · exact ⟨_, rfl⟩
        · obtain ⟨order, horder⟩ := hv.compare hw hordered
            (fun hnull => hv' (by rw [hnull]; rfl)) (fun hnull => hw' (by rw [hnull]; rfl))
          cases relation <;> simp [Relation.holds, horder, Except.map]
      obtain ⟨b, hb⟩ := hholds
      exact (Ensures.lift_ok hb trivial).bind fun _ (_ : True) => Ensures.pure trivial

/-- A pattern that is read too late may be a bad one, which is no mismatch. -/
theorem matchesTerm_sound {language : PatternLanguage} {subject pattern : Term σ}
    (hsubject : Sound words (subject.evaluate env) subject.shape.Fits)
    (hpattern : Sound words (pattern.evaluate env) pattern.shape.Fits)
    (htext : subject.shape.isTextLike = true) (hsource : pattern.shape.isTextLike = true) :
    Sound words ((Formula.matchesTerm language subject pattern).test env) fun _ => True := by
  refine hsubject.bind fun v hv => ?_
  rcases hv.text htext with rfl | ⟨text, rfl⟩
  · exact Ensures.pure trivial
  · refine hpattern.bind fun w hw => ?_
    rcases hw.text hsource with rfl | ⟨source, rfl⟩
    · exact Ensures.pure trivial
    · dsimp only
      split
      · exact Ensures.pure trivial
      · exact Ensures.throw fun h => h

theorem test_sound : ∀ {formula : Formula σ}, formula.Checked →
    (∀ operand ∈ formula.operands, Sound words (operand.evaluate env) operand.shape.Fits) →
    Sound words (formula.test env) fun _ => True
  | .constant _, _, _ => Ensures.pure trivial
  | .value operand, hchecked, h => by
    refine (h operand List.mem_cons_self).bind fun v hv => ?_
    obtain ⟨truth, htruth⟩ := hv.truth hchecked
    exact Ensures.lift_ok htruth trivial
  | .and _, hchecked, h => testAll_sound h hchecked
  | .or _, hchecked, h => testAny_sound h hchecked
  | .not _, hchecked, h =>
    truth_sound (h _ List.mem_cons_self) hchecked fun _ => Ensures.pure trivial
  | .check test operand, hchecked, h => by
    refine (h _ List.mem_cons_self).bind fun v hv => ?_
    have htest : ∃ truth, test.test v = .ok truth := by
      rcases hchecked with rfl | hshape
      · exact ⟨_, rfl⟩
      · obtain ⟨truth, htruth⟩ := hv.truth hshape
        cases test <;> simp [Check.test, htruth, Except.map]
    obtain ⟨truth, htruth⟩ := htest
    exact Ensures.lift_ok htruth trivial
  | .relation _ left right, hchecked, h =>
    relation_sound (h left List.mem_cons_self)
      (h right (List.mem_cons_of_mem _ List.mem_cons_self)) hchecked
  | .matchesPattern subject pattern, hchecked, h => by
    refine (h _ List.mem_cons_self).bind fun v hv => ?_
    rcases hv.text hchecked with rfl | ⟨text, rfl⟩ <;> exact Ensures.pure trivial
  | .matchesTerm _ subject pattern, hchecked, h =>
    matchesTerm_sound (h subject List.mem_cons_self)
      (h pattern (List.mem_cons_of_mem _ List.mem_cons_self)) hchecked.1 hchecked.2
  | .contains containment collection elements, hchecked, h => by
    refine (h collection List.mem_cons_self).bind fun v hv => ?_
    rcases hv.collection hchecked with rfl | ⟨items, rfl⟩
    · exact Ensures.pure trivial
    · refine (h elements (List.mem_cons_of_mem _ List.mem_cons_self)).bind fun w _ => ?_
      split <;> exact Ensures.pure trivial

theorem items_sound {items : List (Term σ)}
    (h : ∀ item ∈ items, Sound words (item.evaluate env) item.shape.Fits) :
    Sound words (Term.evaluateItems env items) fun vs => ∀ v ∈ vs, ∃ item ∈ items,
      item.shape.Fits v := by
  induction items with
  | nil => exact Ensures.pure fun v hv => by cases hv
  | cons item rest ih =>
    rw [List.forall_mem_cons] at h
    refine h.1.bind fun v hv => (ih h.2).bind fun vs hvs => Ensures.pure ?_
    refine List.forall_mem_cons.mpr ⟨⟨item, List.mem_cons_self, hv⟩, fun w hw => ?_⟩
    obtain ⟨other, hother, hfits⟩ := hvs w hw
    exact ⟨other, List.mem_cons_of_mem _ hother, hfits⟩

theorem params_sound {params : List (String × Term σ)} (arguments : Arguments)
    (h : ∀ param ∈ params, Sound words (param.2.evaluate env) param.2.shape.Fits) :
    Sound words (Term.evaluateParams env arguments params) fun _ => True := by
  induction params generalizing arguments with
  | nil => exact Ensures.pure trivial
  | cons param rest ih =>
    rw [List.forall_mem_cons] at h
    exact h.1.bind fun v _ => ih (Table.put arguments param.1 v) h.2

/-- A term all parts of which are checked and known has values of its shape. -/
theorem term_sound (hhonest : ∀ name function, Table.get? words.functions name = some function →
      function.Honest)
    (hbase : ∀ base shape, declares base shape → shape.Holds (base.value env)) (t : Term σ)
    (h : ∀ part ∈ t.parts, part.Checked words declares ∧ part.Known declares) :
    Sound words (t.evaluate env) t.shape.Fits := by
  induction t using Term.induct with
  | constant v shape =>
    obtain ⟨hchecked, hknown⟩ := h _ (Term.self_mem_parts _)
    exact Ensures.pure ⟨hchecked, hknown⟩
  | list items ih =>
    rw [Term.parts, List.forall_mem_cons, Term.forall_partsOfItems] at h
    refine (items_sound fun item hitem => ih item hitem (h.2 item hitem)).bind fun vs hvs => ?_
    exact Ensures.pure (Shape.list_fits hvs)
  | reference r =>
    obtain ⟨⟨shape, hdeclares, hcheck⟩, hopen, hknown⟩ := h _ (Term.self_mem_parts _)
    have hv := hbase r.base shape hdeclares
    obtain ⟨w, hw⟩ := Path.resolve_succeeds hcheck (hknown shape hdeclares) hv
    exact Ensures.lift_ok hw ⟨Path.resolve_holds hcheck hv hw, fun hany => absurd hany hopen⟩
  | call name function params ih =>
    rw [Term.parts, List.forall_mem_cons, Term.forall_partsOfParams] at h
    obtain ⟨⟨hname, hopen⟩, hparams⟩ := h
    have hargs := params_sound [] fun param hparam => ih param hparam (hparams param hparam)
    refine hargs.bind fun arguments _ => ?_
    exact (call_sound (hhonest name function hname) hname arguments).mono
      fun v hv => ⟨hv, fun hany => absurd hany hopen⟩
  | formula made ih =>
    rw [Term.parts, List.forall_mem_cons, Formula.forall_parts] at h
    have htest := test_sound h.1.1 fun operand hoperand => ih operand hoperand (h.2 operand hoperand)
    refine htest.bind fun truth _ => Ensures.pure ⟨?_, fun hany => by cases hany⟩
    cases truth <;> simp [Term.shape, Truth.toJson, Shape.Holds]

theorem bindActions_sound {actions : List (CompiledAction σ)}
    (h : ∀ action ∈ actions, ∀ param ∈ action.params,
      Sound words (param.2.evaluate env) param.2.shape.Fits) :
    Sound words (CompiledRule.bindActions env actions) fun _ => True := by
  induction actions with
  | nil => exact Ensures.pure trivial
  | cons action rest ih =>
    rw [List.forall_mem_cons] at h
    exact (params_sound [] h.1).bind fun _ _ => (ih h.2).bind fun _ _ => Ensures.pure trivial

end Evaluation

theorem Vocabulary.yields_checked {words : Vocabulary σ} {scope : Scope} {schemas : Schemas}
    {rule : Rule} (hbuiltIn : words.operators.BuiltIn) (hscope : scope.Of schemas rule) :
    words.Yields scope fun part => part.Checked words (rule.Declares schemas) where
  constant := by
    intro place kind v t ht
    have hof : ∀ part ∈ (Term.ofJson v : Term σ).parts, part.Checked words (rule.Declares schemas) :=
      List.forall_mem_singleton.mpr (Shape.holds_ofKind (Kind.accepts_of v))
    unfold Scope.constant at ht
    split at ht
    · next declared =>
      split at ht
      · cases ht
      · next haccepts =>
        split at ht
        · cases ht
          exact hof
        · cases ht
          rw [Bool.not_eq_true, Bool.not_eq_false'] at haccepts
          exact List.forall_mem_singleton.mpr (Shape.holds_ofKind haccepts)
    · cases ht
      exact hof
  list _ := trivial
  reference hr := hscope.declares_reference hr
  call _ hname := hname
  operator := by
    intro name rule operands formula hrule hmake hoperands
    obtain ⟨language, operator, hoperator⟩ := hbuiltIn name rule hrule
    have hmakes := Operator.makes_of_make (hoperator ▸ hmake)
    exact hmakes.forall_parts hoperands hmakes.1
  truth _ := trivial
  value h := h

/-- The environment has the attributes of the rule, and binds each of its facts to a value of the
declared type. -/
structure Rule.Binds (schemas : Schemas) (rule : Rule) (compiled : CompiledRule σ)
    (env : Environment) : Prop where
  attributes : env.attributes = compiled.attributes
  facts : ∀ fact ∈ rule.facts, ∃ v, Table.get? env.facts fact.name = some v ∧
    (schemas.resolve fact.typeName).Holds v

namespace Compiler

variable {compiler : Compiler σ} {place : Nat} {rule : Rule} {compiled : CompiledRule σ}
  {env : Environment}

/-- Where the rule declares a place, its environment holds a value of the declared shape. -/
theorem base_holds (hcompile : compiler.compile place rule = .ok compiled)
    (henv : rule.Binds compiler.schemas compiled env) {base : Reference.Base} {shape : Shape}
    (hdeclares : rule.Declares compiler.schemas base shape) : shape.Holds (base.value env) := by
  obtain ⟨attributes, shapes, facts, hattributes, -, -, -, -, hcompiled, -⟩ :=
    compile_steps hcompile
  obtain ⟨hentries, hothers⟩ := attributeTables_spec hattributes
  have hvalues : env.attributes = attributes := henv.attributes.trans hcompiled
  cases base with
  | named name =>
    rw [Reference.Base.value, Environment.get?, hvalues]
    rcases hdeclares with ⟨entry, hentry, rfl, rfl⟩ | ⟨hnone, fact, hfact, rfl, rfl⟩
    · obtain ⟨-, haccepts, hvalue, -⟩ := hentries entry hentry
      rw [hvalue]
      refine Shape.holds_ofKind ?_
      split
      · exact Kind.accepts_of entry.value
      · exact haccepts
    · obtain ⟨v, hv, hholds⟩ := henv.facts fact hfact
      rw [(hothers fact.name hnone).1, hv]
      exact hholds
  | context =>
    obtain rfl : shape = .any := hdeclares
    exact Shape.holds_any _
  | ruleName =>
    obtain rfl : shape = .string := hdeclares
    simp [Reference.Base.value, Shape.Holds]
  | controller =>
    obtain rfl : shape = .record [("stopRequested", .boolean)] := hdeclares
    simp [Reference.Base.value, Shape.Holds, Shape.HoldsFields, Table.get?]

/-- A rule that is compiled with the built-in operators, and none of whose terms may hold anything,
is tested and bound without a mismatch, and each of its terms has values of its shape only. -/
theorem compiled_rule_sound (hbuiltIn : compiler.operators.BuiltIn)
    (hhonest : ∀ name function, Table.get? compiler.functions name = some function →
      function.Honest)
    (hcompile : compiler.compile place rule = .ok compiled)
    (hknown : ∀ part ∈ compiled.parts, part.Known (rule.Declares compiler.schemas))
    (henv : rule.Binds compiler.schemas compiled env) :
    Evaluation.Sound compiler.toVocabulary (compiled.holds env) (fun _ => True) ∧
    Evaluation.Sound compiler.toVocabulary (compiled.bind env) (fun _ => True) ∧
    ∀ part ∈ compiled.parts,
      Evaluation.Sound compiler.toVocabulary (part.evaluate env) part.shape.Holds := by
  have hbase : ∀ base shape, rule.Declares compiler.schemas base shape →
      shape.Holds (base.value env) := fun _ _ => base_holds hcompile henv
  obtain ⟨attributes, shapes, facts, hattributes, hfacts, hformula, hactions, -⟩ :=
    compile_steps hcompile
  have hyields := Vocabulary.yields_checked hbuiltIn (Scope.of_tables hattributes hfacts)
  have hchecked : ∀ part ∈ compiled.parts,
      part.Checked compiler.toVocabulary (rule.Declares compiler.schemas) :=
    CompiledRule.forall_parts.mpr ⟨hyields.of_predicate hformula, hyields.of_actionsFrom hactions⟩
  have hsound : ∀ part ∈ compiled.parts,
      Evaluation.Sound compiler.toVocabulary (part.evaluate env) part.shape.Fits := by
    intro part hpart
    refine Evaluation.term_sound hhonest hbase part fun inner hinner => ?_
    have hmem := CompiledRule.parts_of_mem_parts hpart inner hinner
    exact ⟨hchecked inner hmem, hknown inner hmem⟩
  have hwhole := CompiledRule.forall_parts.mp hsound
  have hformulaChecked := (CompiledRule.forall_parts.mp hchecked).1 _ (Term.self_mem_parts _)
  refine ⟨?_, ?_, fun part hpart => (hsound part hpart).mono fun v hv => hv.1⟩
  · have hoperands := Formula.forall_parts.mp (List.forall_mem_cons.mp hwhole.1).2
    have htest := Evaluation.test_sound hformulaChecked fun operand hoperand =>
      hoperands operand hoperand operand (Term.self_mem_parts operand)
    exact htest.bind fun _ _ => Evaluation.Ensures.pure trivial
  · refine Evaluation.bindActions_sound fun action haction param hparam => ?_
    exact Term.forall_partsOfParams.mp (hwhole.2 action haction) param hparam param.2
      (Term.self_mem_parts param.2)

/-- A vocabulary with one type of facts, one function and one action. -/
def stockWords : Vocabulary Unit where
  operators := .standard
  functions := [("total", ⟨.integer, fun _ world => (.ok (.ofNat 7), world)⟩)]
  actions := [("order", ⟨fun _ _ outcome => (.ok (), outcome)⟩)]
  schemas := [("Item", .record [("counts", .list .integer), ("name", .string)])]

def stockCompiler : Compiler Unit :=
  { stockWords with strict := true, checksDates := false, anonymous := fun _ => "" }

/-- Orders bolts of which there are fewer than ten. -/
def stockRule : Rule where
  attributes := [⟨"ruleName", .string, .string "stock"⟩]
  facts := [⟨"item", "Item"⟩]
  predicate := .and [.equal (.field "item" "name") (.constant (.string "bolt")),
    .operator "less" [.function "total" [("of", .field "item" "counts")], .constant (.ofNat 10)]]
  actions := [⟨"order", [("what", .field "item" "name")]⟩]

def stockEnvironment : Environment where
  ruleId := "stock"
  attributes := [("ruleName", .string "stock")]
  facts := [("item", .object [("counts", .array [.ofNat 3, .ofNat 4])])]
  context := .null
  stopped := false

def stockCompiled : CompiledRule Unit :=
  let name : Term Unit := .reference ⟨.named "item", [⟨"name", false⟩], .string, "item.name"⟩
  let counts : Term Unit :=
    .reference ⟨.named "item", [⟨"counts", false⟩], .list .integer, "item.counts"⟩
  { id := "stock"
    formula := .and [
      .formula (.relation .equal name (.constant (.string "bolt") .string)),
      .formula (.relation .less
        (.call "total" ⟨.integer, fun _ world => (.ok (.ofNat 7), world)⟩ [("of", counts)])
        (.constant (.ofNat 10) .integer))]
    actions := [⟨"order", ⟨fun _ _ outcome => (.ok (), outcome)⟩, [("what", name)]⟩]
    attributes := [("ruleName", .string "stock")]
    priority := 0
    facts := [⟨"item", "Item"⟩] }

theorem stockRule_sound :
    Evaluation.Sound stockCompiler.toVocabulary (stockCompiled.holds stockEnvironment) (fun _ => True) ∧
    Evaluation.Sound stockCompiler.toVocabulary (stockCompiled.bind stockEnvironment) (fun _ => True) ∧
    ∀ part ∈ stockCompiled.parts,
      Evaluation.Sound stockCompiler.toVocabulary (part.evaluate stockEnvironment) part.shape.Holds := by
  have hhonest : ∀ name function, Table.get? stockCompiler.functions name = some function →
      function.Honest := by
    intro name function hname
    have hmem := Table.mem_of_get? hname
    rw [stockCompiler, stockWords, List.mem_singleton] at hmem
    cases hmem
    refine ⟨fun _ _ v hv => ?_, fun _ _ failure hfailure => (by cases hfailure)⟩
    cases hv
    exact ⟨_, rfl, rfl⟩
  have hcompile : stockCompiler.compile 0 stockRule = .ok stockCompiled := by
    have hid : stockCompiler.ruleId 0 stockRule = "stock" := rfl
    simp only [compile, hid]
    rfl
  have hknown : ∀ part ∈ stockCompiled.parts,
      part.Known (stockRule.Declares stockCompiler.schemas) := by
    simp [CompiledRule.parts, stockCompiled, Term.parts, Formula.parts, Term.partsOfItems,
      Term.partsOfParams, Term.Known, Rule.Declares, stockRule, Path.Known, Path.fieldShape,
      stockCompiler, stockWords, Schemas.resolve, Table.get?, Shape.ofKind]
  have henv : stockRule.Binds stockCompiler.schemas stockCompiled stockEnvironment := by
    refine ⟨rfl, List.forall_mem_singleton.mpr
      ⟨_, rfl, Shape.holds_record.mpr (.inr ⟨_, rfl, fun v hv => ?_, fun v hv => ?_, trivial⟩)⟩⟩
    · cases hv
      refine Shape.holds_list.mpr (.inr ⟨_, rfl, ?_⟩)
      exact List.forall_mem_cons.mpr ⟨⟨_, rfl, rfl⟩, List.forall_mem_singleton.mpr ⟨_, rfl, rfl⟩⟩
    · cases hv
  have hbuiltIn : stockCompiler.operators.BuiltIn := Operators.standard_builtIn
  exact compiled_rule_sound hbuiltIn hhonest hcompile hknown henv

end Compiler
end Rulebook
