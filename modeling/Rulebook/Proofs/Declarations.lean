import Rulebook.Proofs.Parts

/-!
# What rules declare

The tables that compiling makes of a rule's attributes and facts, said by the rule itself. A
reference that is compiled starts at a declared place, and its path is checked from the shape that
is declared there.
-/
namespace Rulebook

/-- The shape of an attribute; a kind that may be anything gives way to that of the value. -/
def Attribute.shape (entry : Attribute) : Shape :=
  .ofKind (match entry.kind with
    | .any => Kind.of entry.value
    | declared => declared)

/-- A rule declares shapes for its attributes, for facts that no attribute hides, and for the
reserved names. -/
def Rule.Declares (schemas : Schemas) (rule : Rule) : Reference.Base → Shape → Prop
  | .named name, shape =>
    (∃ entry ∈ rule.attributes, entry.name = name ∧ shape = entry.shape) ∨
      (∀ entry ∈ rule.attributes, entry.name ≠ name) ∧
        ∃ fact ∈ rule.facts, fact.name = name ∧ shape = schemas.resolve fact.typeName
  | base, shape => shape = base.shape

/-- Each attribute is new to the tables and fits its kind; all other names stay as they are. -/
theorem attributeTables_spec {ruleId : String} {entries : List Attribute}
    {values values' : Table Json} {shapes shapes' : Table Shape}
    (h : attributeTables ruleId values shapes entries = .ok (values', shapes')) :
    (∀ entry ∈ entries, Table.get? values entry.name = none ∧
      entry.kind.accepts entry.value = true ∧ Table.get? values' entry.name = some entry.value ∧
      Table.get? shapes' entry.name = some entry.shape) ∧
    ∀ name, (∀ entry ∈ entries, entry.name ≠ name) →
      Table.get? values' name = Table.get? values name ∧
      Table.get? shapes' name = Table.get? shapes name := by
  induction entries generalizing values shapes with
  | nil =>
    cases h
    simp
  | cons entry rest ih =>
    unfold attributeTables at h
    split at h
    · cases h
    · next hnew =>
      split at h
      · cases h
      · next haccepts =>
        obtain ⟨hrest, hothers⟩ := ih h
        have hlater : ∀ other ∈ rest, other.name ≠ entry.name := by
          intro other hother hname
          have hnone := (hrest other hother).1
          rw [hname, Table.get?_put_self] at hnone
          cases hnone
        have hhere := hothers entry.name hlater
        rw [Table.get?_put_self, Table.get?_put_self] at hhere
        refine ⟨List.forall_mem_cons.mpr ⟨⟨?_, ?_, hhere⟩, fun other hother => ?_⟩,
          fun name hname => ?_⟩
        · simpa [Table.has] using hnew
        · simpa using haccepts
        · have hspec := hrest other hother
          rw [Table.get?_put_of_ne _ _ (hlater other hother).symm] at hspec
          exact hspec
        · obtain ⟨hentry, hname⟩ := List.forall_mem_cons.mp hname
          have hspec := hothers name hname
          rw [Table.get?_put_of_ne _ _ hentry, Table.get?_put_of_ne _ _ hentry] at hspec
          exact hspec

theorem factShapes_spec {ruleId : String} {schemas : Schemas} {facts : List FactDeclaration}
    {shapes shapes' : Table Shape} (h : factShapes ruleId schemas shapes facts = .ok shapes') :
    (∀ fact ∈ facts, Table.get? shapes fact.name = none ∧
      Table.get? shapes' fact.name = some (schemas.resolve fact.typeName)) ∧
    ∀ name, (∀ fact ∈ facts, fact.name ≠ name) →
      Table.get? shapes' name = Table.get? shapes name := by
  induction facts generalizing shapes with
  | nil =>
    cases h
    simp
  | cons fact rest ih =>
    unfold factShapes at h
    split at h
    · cases h
    · next hnew =>
      obtain ⟨hrest, hothers⟩ := ih h
      have hlater : ∀ other ∈ rest, other.name ≠ fact.name := by
        intro other hother hname
        have hnone := (hrest other hother).1
        rw [hname, Table.get?_put_self] at hnone
        cases hnone
      have hhere := hothers fact.name hlater
      rw [Table.get?_put_self] at hhere
      refine ⟨List.forall_mem_cons.mpr ⟨⟨?_, hhere⟩, fun other hother => ?_⟩, fun name hname => ?_⟩
      · simpa [Table.has] using hnew
      · have hspec := hrest other hother
        rw [Table.get?_put_of_ne _ _ (hlater other hother).symm] at hspec
        exact hspec
      · obtain ⟨hfact, hname⟩ := List.forall_mem_cons.mp hname
        rw [hothers name hname, Table.get?_put_of_ne _ _ hfact]

namespace Scope

/-- The names of the scope are those of the rule, with the shapes that the rule declares. -/
structure Of (scope : Scope) (schemas : Schemas) (rule : Rule) : Prop where
  attributes : ∀ name shape, Table.get? scope.attributes name = some shape ↔
    ∃ entry ∈ rule.attributes, entry.name = name ∧ shape = entry.shape
  facts : ∀ name shape, Table.get? scope.facts name = some shape ↔
    ∃ fact ∈ rule.facts, fact.name = name ∧ shape = schemas.resolve fact.typeName

theorem of_tables {ruleId : String} {schemas : Schemas} {rule : Rule} {values : Table Json}
    {shapes facts : Table Shape}
    (hattributes : attributeTables ruleId [] [] rule.attributes = .ok (values, shapes))
    (hfacts : factShapes ruleId schemas [] rule.facts = .ok facts) :
    Of ⟨ruleId, shapes, facts⟩ schemas rule where
  attributes name shape := by
    obtain ⟨hentries, hothers⟩ := attributeTables_spec hattributes
    constructor
    · intro hshape
      by_cases hdeclared : ∃ entry ∈ rule.attributes, entry.name = name
      · obtain ⟨entry, hentry, rfl⟩ := hdeclared
        exact ⟨entry, hentry, rfl, Option.some.inj (hshape.symm.trans (hentries entry hentry).2.2.2)⟩
      · have hnone := (hothers name fun entry hentry hname => hdeclared ⟨entry, hentry, hname⟩).2
        cases hnone.symm.trans hshape
    · rintro ⟨entry, hentry, rfl, rfl⟩
      exact (hentries entry hentry).2.2.2
  facts name shape := by
    obtain ⟨hentries, hothers⟩ := factShapes_spec hfacts
    constructor
    · intro hshape
      by_cases hdeclared : ∃ fact ∈ rule.facts, fact.name = name
      · obtain ⟨fact, hfact, rfl⟩ := hdeclared
        exact ⟨fact, hfact, rfl, Option.some.inj (hshape.symm.trans (hentries fact hfact).2)⟩
      · have hnone := hothers name fun fact hfact hname => hdeclared ⟨fact, hfact, hname⟩
        cases hnone.symm.trans hshape
    · rintro ⟨fact, hfact, rfl, rfl⟩
      exact (hentries fact hfact).2

variable {scope : Scope} {schemas : Schemas} {rule : Rule}

theorem Of.declares_base (h : scope.Of schemas rule) {name : String} {base : Reference.Base}
    {shape : Shape} (hbase : scope.base? name = some (base, shape)) :
    rule.Declares schemas base shape := by
  unfold base? at hbase
  split at hbase
  · next found hfound =>
    cases hbase
    rcases Option.or_eq_some_iff.mp hfound with hattribute | ⟨hnone, hfact⟩
    · exact .inl ((h.attributes name shape).mp hattribute)
    · refine .inr ⟨fun entry hentry hname => ?_, (h.facts name shape).mp hfact⟩
      have hsome := (h.attributes name entry.shape).mpr ⟨entry, hentry, hname, rfl⟩
      cases hnone.symm.trans hsome
  · obtain ⟨reserved, hreserved, hpair⟩ := Option.map_eq_some_iff.mp hbase
    cases hpair
    unfold Reference.Base.reserved? at hreserved
    split at hreserved <;> cases hreserved <;> exact rfl

/-- A compiled reference starts at a declared place, from which its path was checked. -/
theorem Of.declares_reference (h : scope.Of schemas rule) {name : String} {path : Option String}
    {r : Reference} (hr : scope.reference name path = .ok r) :
    ∃ shape, rule.Declares schemas r.base shape ∧ r.path.check shape = .ok r.shape := by
  unfold reference at hr
  dsimp only at hr
  split at hr
  · cases hr
  · next base shape hbase =>
    split at hr
    · next made hmade =>
      cases hr
      obtain ⟨segments, -, hmade⟩ := exists_of_bind_ok hmade
      obtain ⟨result, hcheck, hmade⟩ := exists_of_bind_ok hmade
      cases hmade
      exact ⟨shape, h.declares_base hbase, hcheck⟩
    · cases hr

end Scope
end Rulebook
