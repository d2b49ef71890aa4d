import Mathlib.Data.List.Nodup
import Rulebook.Proofs.Identifiers

/-!
# The rules that are accepted

Rules are looked at one after the other. `Compiler.Admits` says what it takes for a rule to be kept
after those that are kept already, and `Compiler.Loads` what the ruleset holds of the rules that are
kept. Kept rules agree on the types of their fact names, whatever has been left out between them.
-/
namespace Rulebook

namespace FactNames

variable {names declared : FactNames} {name typeName : String}

/-- No name stands for two types. -/
def Consistent (names : FactNames) : Prop :=
  ∀ a ∈ names, ∀ b ∈ names, a.1 = b.1 → a.2 = b.2

theorem Consistent.subset (h : Consistent names) (hsubset : declared ⊆ names) :
    Consistent declared :=
  fun a ha b hb => h a (hsubset ha) b (hsubset hb)

theorem Consistent.eraseDups (h : Consistent names) : Consistent names.eraseDups :=
  h.subset fun _ => List.mem_eraseDups.mp

theorem typeOf?_eq_some_iff (h : Consistent names) :
    names.typeOf? name = some typeName ↔ (name, typeName) ∈ names := by
  unfold typeOf?
  constructor
  · intro hfound
    obtain ⟨⟨key, held⟩, hentry, rfl⟩ := Option.map_eq_some_iff.mp hfound
    have hkey : key = name := by simpa using List.find?_some hentry
    exact hkey ▸ List.mem_of_find?_eq_some hentry
  · intro hmem
    obtain ⟨⟨key, held⟩, hentry⟩ :
        ∃ entry, names.find? (fun entry => entry.1 = name) = some entry :=
      Option.isSome_iff_exists.mp (List.find?_isSome.mpr ⟨_, hmem, by simp⟩)
    have hkey : key = name := by simpa using List.find?_some hentry
    have htype := h _ (List.mem_of_find?_eq_some hentry) _ hmem hkey
    rw [hentry]
    exact congrArg some htype

theorem check_eq_ok_iff :
    names.check name typeName = .ok () ↔
      ∀ held, names.typeOf? name = some held → held = typeName := by
  unfold check
  cases names.typeOf? name with
  | none => simp
  | some held => by_cases h : held = typeName <;> simp [h]

/-- A name that is added stands once, where it was first declared. -/
theorem eraseDups_add (h : Consistent (declared ++ [(name, typeName)])) :
    add declared.eraseDups name typeName = (declared ++ [(name, typeName)]).eraseDups := by
  have hdeclared : Consistent declared.eraseDups :=
    (h.subset (List.subset_append_left _ _)).eraseDups
  rw [List.eraseDups_append]
  unfold add
  split
  · next hnone =>
    have hnew : (name, typeName) ∉ declared := by
      intro hmem
      have hsome := (typeOf?_eq_some_iff hdeclared).mpr (List.mem_eraseDups.mpr hmem)
      cases hnone.symm.trans hsome
    simp [List.removeAll, hnew, List.eraseDups_cons]
  · next held hsome =>
    have hmem := List.mem_eraseDups.mp ((typeOf?_eq_some_iff hdeclared).mp hsome)
    have htype : held = typeName :=
      h _ (List.mem_append_left _ hmem) _ (List.mem_append_right _ List.mem_cons_self) rfl
    simp [List.removeAll, htype ▸ hmem]

theorem eraseDups_foldl_add {facts : List FactDeclaration}
    (h : Consistent (declared ++ facts.map fun fact => (fact.name, fact.typeName))) :
    facts.foldl (fun names fact => add names fact.name fact.typeName) declared.eraseDups =
      (declared ++ facts.map fun fact => (fact.name, fact.typeName)).eraseDups := by
  induction facts generalizing declared with
  | nil => simp
  | cons fact rest ih =>
    rw [List.map_cons, List.append_cons] at h ⊢
    rw [List.foldl_cons, eraseDups_add (h.subset (List.subset_append_left _ _)), ih h]

end FactNames

/-- The fact names of a rule with their types. -/
def Rule.declarations (rule : Rule) : FactNames :=
  rule.facts.map fun fact => (fact.name, fact.typeName)

/-- The rules declare no fact name with two types. -/
def Rule.AgreesWith (rule other : Rule) : Prop :=
  ∀ fact ∈ rule.facts, ∀ held ∈ other.facts, held.name = fact.name → held.typeName = fact.typeName

instance (rule other : Rule) : Decidable (rule.AgreesWith other) :=
  inferInstanceAs (Decidable (∀ fact ∈ rule.facts, ∀ held ∈ other.facts,
    held.name = fact.name → held.typeName = fact.typeName))

theorem Rule.AgreesWith.symm {rule other : Rule} (h : rule.AgreesWith other) :
    other.AgreesWith rule :=
  fun fact hfact held hheld hname => (h held hheld fact hfact hname.symm).symm

theorem factShapes_nodup {ruleId : String} {schemas : Schemas} {facts : List FactDeclaration}
    {shapes shapes' : Table Shape} (h : factShapes ruleId schemas shapes facts = .ok shapes') :
    (facts.map FactDeclaration.name).Nodup := by
  induction facts generalizing shapes with
  | nil => exact List.nodup_nil
  | cons fact rest ih =>
    unfold factShapes at h
    split at h
    · cases h
    · rw [List.map_cons, List.nodup_cons]
      refine ⟨fun hmem => ?_, ih h⟩
      obtain ⟨other, hother, hname⟩ := List.mem_map.mp hmem
      have hnone := ((factShapes_spec h).1 other hother).1
      rw [hname, Table.get?_put_self] at hnone
      cases hnone

namespace Compiler

variable {σ : Type} {compiler : Compiler σ} {now : Instant} {kept : List Rule} {rule : Rule}
  {ruleset : Ruleset σ}

/-- The rule compiles by itself. -/
def Compiles (compiler : Compiler σ) (rule : Rule) : Prop :=
  ∃ compiled, compiler.compile 0 rule = .ok compiled

/-- The dates of the rule are readable and the instant lies between them, if dates are checked. -/
def InForce (compiler : Compiler σ) (now : Instant) (rule : Rule) : Prop :=
  compiler.checksDates = true → rule.isValidAt now = .ok true

/-- What it takes for a rule to be kept after others. -/
structure Admits (compiler : Compiler σ) (now : Instant) (kept : List Rule) (rule : Rule) :
    Prop where
  inForce : compiler.InForce now rule
  compiles : compiler.Compiles rule
  agrees : ∀ other ∈ kept, rule.AgreesWith other

theorem Admits.subset {others : List Rule} (h : compiler.Admits now kept rule)
    (hsubset : others ⊆ kept) : compiler.Admits now others rule :=
  ⟨h.inForce, h.compiles, fun other hother => h.agrees other (hsubset hother)⟩

/-- Each rule could be kept after all the others. -/
def Coherent (compiler : Compiler σ) (now : Instant) (kept : List Rule) : Prop :=
  ∀ rule ∈ kept, compiler.Admits now kept rule

theorem Compiles.agrees_self (h : compiler.Compiles rule) : rule.AgreesWith rule := by
  obtain ⟨compiled, hcompiled⟩ := h
  obtain ⟨_, _, facts, -, hfacts, -⟩ := compile_steps hcompiled
  intro fact hfact held hheld hname
  rw [List.inj_on_of_nodup_map (factShapes_nodup hfacts) hheld hfact hname]

theorem Coherent.concat (h : compiler.Coherent now kept) (hadmits : compiler.Admits now kept rule) :
    compiler.Coherent now (kept ++ [rule]) := by
  intro other hother
  rcases List.mem_append.mp hother with hother | hother
  · obtain ⟨hinForce, hcompiles, hagrees⟩ := h other hother
    refine ⟨hinForce, hcompiles, List.forall_mem_append.mpr ⟨hagrees, ?_⟩⟩
    exact List.forall_mem_singleton.mpr (hadmits.agrees other hother).symm
  · cases List.mem_singleton.mp hother
    refine ⟨hadmits.inForce, hadmits.compiles, List.forall_mem_append.mpr ⟨hadmits.agrees, ?_⟩⟩
    exact List.forall_mem_singleton.mpr hadmits.compiles.agrees_self

theorem Coherent.consistent (h : compiler.Coherent now kept) :
    FactNames.Consistent (kept.flatMap Rule.declarations) := by
  intro a ha b hb hname
  obtain ⟨rule, hrule, ha⟩ := List.mem_flatMap.mp ha
  obtain ⟨other, hother, hb⟩ := List.mem_flatMap.mp hb
  obtain ⟨fact, hfact, rfl⟩ := List.mem_map.mp ha
  obtain ⟨held, hheld, rfl⟩ := List.mem_map.mp hb
  exact (h rule hrule).agrees other hother fact hfact held hheld hname.symm |>.symm

/-- The ruleset has the rules that are kept, and nothing but their fact names, each once and in the
order of the declarations. -/
structure Loads (compiler : Compiler σ) (kept : List Rule) (ruleset : Ruleset σ) : Prop where
  rules : kept.mapIdx compiler.compile = ruleset.rules.map .ok
  factNames : ruleset.factNames = (kept.flatMap Rule.declarations).eraseDups

theorem Loads.length_eq (h : compiler.Loads kept ruleset) : ruleset.rules.length = kept.length := by
  simpa using (congrArg List.length h.rules).symm

instance : Decidable (compiler.InForce now rule) :=
  if hdates : compiler.checksDates = true then
    match hvalid : rule.isValidAt now with
    | .ok true => isTrue fun _ => hvalid
    | .ok false => isFalse fun h => by cases hvalid.symm.trans (h hdates)
    | .error _ => isFalse fun h => by cases hvalid.symm.trans (h hdates)
  else isTrue fun h => absurd h hdates

instance : Decidable (compiler.Compiles rule) :=
  match hcompiled : compiler.compile 0 rule with
  | .ok compiled => isTrue ⟨compiled, hcompiled⟩
  | .error _ => isFalse fun ⟨_, h⟩ => by cases hcompiled.symm.trans h

instance : Decidable (compiler.Admits now kept rule) :=
  decidable_of_iff (compiler.InForce now rule ∧ compiler.Compiles rule ∧
      ∀ other ∈ kept, rule.AgreesWith other)
    ⟨fun h => ⟨h.1, h.2.1, h.2.2⟩, fun h => ⟨h.inForce, h.compiles, h.agrees⟩⟩

/-- The kept rules when one more has been looked at. -/
def keep (compiler : Compiler σ) (now : Instant) (kept : List Rule) (rule : Rule) : List Rule :=
  if compiler.Admits now kept rule then kept ++ [rule] else kept

theorem Coherent.keep (h : compiler.Coherent now kept) (rule : Rule) :
    compiler.Coherent now (compiler.keep now kept rule) := by
  unfold Compiler.keep
  split
  · next hadmits => exact h.concat hadmits
  · exact h

theorem Coherent.foldl_keep (h : compiler.Coherent now kept) (rules : List Rule) :
    compiler.Coherent now (rules.foldl (compiler.keep now) kept) := by
  induction rules generalizing kept with
  | nil => exact h
  | cons rule rest ih => exact ih (h.keep rule)

theorem subset_foldl_keep (rules : List Rule) :
    kept ⊆ rules.foldl (compiler.keep now) kept := by
  induction rules generalizing kept with
  | nil => exact List.Subset.refl kept
  | cons rule rest ih =>
    refine List.Subset.trans ?_ ih
    unfold keep
    split
    · exact List.subset_append_left _ _
    · exact List.Subset.refl kept

theorem declareFacts_cases (names : FactNames) (compiled : CompiledRule σ) :
    (∀ fact ∈ compiled.facts, names.check fact.name fact.typeName = .ok ()) ∧
        declareFacts names compiled =
          .ok (compiled.facts.foldl (fun names fact => names.add fact.name fact.typeName) names) ∨
      (∃ fact ∈ compiled.facts, names.check fact.name fact.typeName ≠ .ok ()) ∧
        ∃ failure, declareFacts names compiled = .error failure := by
  unfold declareFacts
  dsimp only
  split
  · next clash hclash =>
    obtain ⟨fact, hfact, hcheck⟩ := List.exists_of_findSome?_eq_some hclash
    refine .inr ⟨⟨fact, hfact, fun hok => ?_⟩, _, rfl⟩
    rw [hok] at hcheck
    cases hcheck
  · next hnone =>
    refine .inl ⟨fun fact hfact => ?_, rfl⟩
    have hcheck := List.findSome?_eq_none_iff.mp hnone fact hfact
    split at hcheck
    · next hok => exact hok
    · cases hcheck

/-- The names of the kept rules admit those of a rule that agrees with them. -/
theorem Coherent.check_iff (h : compiler.Coherent now kept) :
    (∀ fact ∈ rule.facts, FactNames.check (kept.flatMap Rule.declarations).eraseDups fact.name
      fact.typeName = .ok ()) ↔ ∀ other ∈ kept, rule.AgreesWith other := by
  simp only [FactNames.check_eq_ok_iff, FactNames.typeOf?_eq_some_iff h.consistent.eraseDups,
    List.mem_eraseDups, List.mem_flatMap]
  constructor
  · intro hcheck other hother fact hfact held hheld hname
    exact hcheck fact hfact held.typeName
      ⟨other, hother, List.mem_map.mpr ⟨held, hheld, by rw [hname]⟩⟩
  · rintro hagrees fact hfact _ ⟨other, hother, hmem⟩
    obtain ⟨held, hheld, hpair⟩ := List.mem_map.mp hmem
    obtain ⟨hname, htype⟩ := Prod.mk.inj hpair
    exact htype ▸ hagrees other hother fact hfact held hheld hname

theorem accept_of_inForce (h : compiler.InForce now rule) (ruleset : Ruleset σ) :
    compiler.accept now ruleset rule = (do
      let compiled ← compiler.compile ruleset.rules.length rule
      let names ← declareFacts ruleset.factNames compiled
      pure ⟨ruleset.rules ++ [compiled], names⟩) := by
  unfold accept
  by_cases hdates : compiler.checksDates = true
  · rw [if_pos hdates, h hdates]
    rfl
  · rw [if_neg hdates]
    rfl

/-- A rule that is admitted is accepted as the last one. -/
theorem Loads.accept (h : compiler.Loads kept ruleset) (hcoherent : compiler.Coherent now kept)
    (hadmits : compiler.Admits now kept rule) :
    ∃ after, compiler.accept now ruleset rule = .ok after ∧
      compiler.Loads (kept ++ [rule]) after := by
  obtain ⟨compiled, hcompiled⟩ := hadmits.compiles
  obtain ⟨_, _, _, -, -, -, -, -, -, hfacts⟩ := compile_steps hcompiled
  have hplaced := compile_renamed hcompiled compiler rfl ruleset.rules.length
  rw [accept_of_inForce hadmits.inForce, hplaced]
  rcases declareFacts_cases ruleset.factNames
    { compiled with id := compiler.ruleId ruleset.rules.length rule } with
    ⟨-, hnames⟩ | ⟨⟨fact, hfact, hcheck⟩, -⟩
  · refine ⟨_, by simp only [bind, Except.bind, hnames]; rfl, ?_, ?_⟩
    · rw [List.mapIdx_concat, h.rules, ← h.length_eq, hplaced, List.map_append]
      rfl
    · have hconsistent := (hcoherent.concat hadmits).consistent
      rw [List.flatMap_append, List.flatMap_singleton] at hconsistent ⊢
      rw [h.factNames, hfacts]
      exact FactNames.eraseDups_foldl_add hconsistent
  · rw [h.factNames] at hcheck
    rw [hfacts] at hfact
    exact absurd (hcoherent.check_iff.mpr hadmits.agrees fact hfact) hcheck

/-- A rule that is valid now and not admitted is a failure. -/
theorem Loads.refuse (h : compiler.Loads kept ruleset) (hcoherent : compiler.Coherent now kept)
    (hinForce : compiler.InForce now rule) (hnot : ¬ compiler.Admits now kept rule) :
    ∃ failure, compiler.accept now ruleset rule = .error failure := by
  rw [accept_of_inForce hinForce]
  cases hcompiled : compiler.compile ruleset.rules.length rule with
  | error failure => exact ⟨failure, rfl⟩
  | ok compiled =>
    obtain ⟨_, _, _, -, -, -, -, -, -, hfacts⟩ := compile_steps hcompiled
    rcases declareFacts_cases ruleset.factNames compiled with ⟨hcheck, -⟩ | ⟨-, failure, hclash⟩
    · rw [h.factNames, hfacts] at hcheck
      have hcompiles : compiler.Compiles rule := ⟨_, compile_renamed hcompiled compiler rfl 0⟩
      exact absurd ⟨hinForce, hcompiles, hcoherent.check_iff.mp hcheck⟩ hnot
    · exact ⟨failure, by simp only [bind, Except.bind, hclash]⟩

/-- A rule whose dates do not let it be valid now leaves the ruleset as it is, or is a failure if
they cannot be read. -/
theorem accept_of_not_inForce (h : ¬ compiler.InForce now rule) (ruleset : Ruleset σ) :
    rule.isValidAt now = .ok false ∧ compiler.accept now ruleset rule = .ok ruleset ∨
      compiler.checksDates = true ∧ ∃ failure, rule.isValidAt now = .error failure ∧
        compiler.accept now ruleset rule = .error failure := by
  obtain ⟨hdates, hvalid⟩ := Classical.not_imp.mp h
  unfold Compiler.accept
  rw [if_pos hdates]
  cases hchecked : rule.isValidAt now with
  | error failure => exact .inr ⟨hdates, failure, rfl, rfl⟩
  | ok valid =>
    cases valid with
    | true => exact absurd hchecked hvalid
    | false => exact .inl ⟨rfl, rfl⟩

/-- A rule that is not admitted leaves the ruleset as it is, with a failure or without one. -/
theorem Loads.reject (h : compiler.Loads kept ruleset) (hcoherent : compiler.Coherent now kept)
    (hnot : ¬ compiler.Admits now kept rule) :
    compiler.accept now ruleset rule = .ok ruleset ∨
      ∃ failure, compiler.accept now ruleset rule = .error failure := by
  by_cases hinForce : compiler.InForce now rule
  · exact .inr (h.refuse hcoherent hinForce hnot)
  · rcases accept_of_not_inForce hinForce ruleset with ⟨-, haccept⟩ | ⟨-, failure, -, haccept⟩
    · exact .inl haccept
    · exact .inr ⟨failure, haccept⟩

/-- Looking at the rules one after the other loads those that are kept. Only a strict compiler can
fail, and only if it meets a rule that is not admitted. -/
theorem Loads.acceptAll (h : compiler.Loads kept ruleset) (hcoherent : compiler.Coherent now kept)
    (rules : List Rule) :
    (∃ after, compiler.acceptAll now ruleset rules = .ok after ∧
      compiler.Loads (rules.foldl (compiler.keep now) kept) after) ∨
    compiler.strict = true ∧ ¬ compiler.Coherent now (kept ++ rules) ∧
      ∃ failure, compiler.acceptAll now ruleset rules = .error failure := by
  induction rules generalizing kept ruleset with
  | nil => exact .inl ⟨ruleset, rfl, h⟩
  | cons rule rest ih =>
    unfold Compiler.acceptAll
    rw [List.foldl_cons]
    by_cases hadmits : compiler.Admits now kept rule
    · obtain ⟨accepted, haccept, hloads⟩ := h.accept hcoherent hadmits
      rw [haccept, Compiler.keep, if_pos hadmits, List.append_cons kept rule rest]
      exact ih hloads (hcoherent.concat hadmits)
    · have hincoherent : ¬ compiler.Coherent now (kept ++ rule :: rest) := fun hall =>
        hadmits ((hall rule (by simp)).subset (List.subset_append_left _ _))
      have hrest := ih h hcoherent
      rw [Compiler.keep, if_neg hadmits]
      rcases h.reject hcoherent hadmits with haccept | ⟨failure, haccept⟩
      · rw [haccept]
        exact hrest.imp_right fun ⟨hstrict, _, hfailure⟩ => ⟨hstrict, hincoherent, hfailure⟩
      · rw [haccept]
        dsimp only
        split
        · next hstrict => exact .inr ⟨hstrict, hincoherent, failure, rfl⟩
        · exact hrest.imp_right fun ⟨hstrict, _, hfailure⟩ => ⟨hstrict, hincoherent, hfailure⟩

theorem loads_empty (compiler : Compiler σ) : compiler.Loads [] .empty := ⟨rfl, rfl⟩

theorem coherent_nil (compiler : Compiler σ) (now : Instant) : compiler.Coherent now [] :=
  fun _ hrule => nomatch hrule

/-- Compiling loads the rules that are kept, unless the compiler is strict and fails. -/
theorem compileAll_loads {rules : List Rule} (h : compiler.compileAll now rules = .ok ruleset) :
    compiler.Loads ((ranked rules).foldl (compiler.keep now) []) ruleset := by
  unfold compileAll at h
  rcases compiler.loads_empty.acceptAll (compiler.coherent_nil now) (ranked rules) with
    ⟨after, hafter, hloads⟩ | ⟨-, -, failure, hfailure⟩
  · cases hafter.symm.trans h
    exact hloads
  · cases hfailure.symm.trans h

end Compiler
end Rulebook
