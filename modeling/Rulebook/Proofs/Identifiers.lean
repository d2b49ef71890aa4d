import Rulebook.Proofs.Blame
import Rulebook.Proofs.Counterparts
import Rulebook.Proofs.Declarations

/-!
# Identifiers of rules

A rule without a name is called by its place in the ruleset. What it is called makes no difference
to whether it compiles nor to what is made of it, apart from the identifier itself;
`CompiledRule.masked` leaves that out.
-/
namespace Rulebook

variable {σ : Type}

/-- The name that the attributes give the rule. -/
def CompiledRule.name? (rule : CompiledRule σ) : Option String :=
  (Table.get? rule.attributes "ruleName").bind Json.string?

/-- The rule without an identifier, unless it has a name. -/
def CompiledRule.masked (rule : CompiledRule σ) : CompiledRule σ :=
  match rule.name? with
  | some name => if name = "" then { rule with id := "" } else rule
  | none => { rule with id := "" }

def Ruleset.masked (ruleset : Ruleset σ) : Ruleset σ :=
  { ruleset with rules := ruleset.rules.map CompiledRule.masked }

theorem eq_of_params {params params' : List (String × Term σ)}
    (h : List.Forall₂ (fun p p' => p.1 = p'.1 ∧ p.2 = p'.2) params params') : params = params' :=
  List.forall₂_eq_eq_eq ▸ h.imp fun _ _ hp => Prod.ext hp.1 hp.2

theorem asFormula_of_ok {scope : Scope} {place : String} {t : Term σ} {formula : Formula σ}
    (h : Vocabulary.asFormula scope place t = .ok formula) (scope' : Scope) (place' : String) :
    Vocabulary.asFormula scope' place' t = .ok formula := by
  cases t with
  | formula made => exact h
  | call name function params =>
    unfold Vocabulary.asFormula at h ⊢
    dsimp only at h ⊢
    split at h
    · exact h
    · exact h
    · cases h
  | reference r =>
    unfold Vocabulary.asFormula at h ⊢
    dsimp only at h ⊢
    split at h
    · next hshape => rw [if_pos hshape, ← h]
    · cases h
  | constant _ _ => cases h
  | list _ => cases h

/-- Nothing but the messages of failures depends on the identifier of a scope or on the place. -/
theorem Vocabulary.mirrors_self (words : Vocabulary σ) {scope scope' : Scope}
    (h : scope.Alike Eq scope') : words.Mirrors words scope scope' Eq where
  operators := rfl
  functions := rfl
  actions := rfl
  constant ht place' := ⟨_, Scope.constant_of_ok ht scope' place', rfl⟩
  reference hr := by
    obtain ⟨shape, hr', hshape⟩ := h.reference Shape.stable_eq hr
    subst hshape
    exact ⟨_, hr', rfl⟩
  list hts := by
    rw [List.forall₂_eq_eq_eq] at hts
    rw [hts]
  call hparams := by rw [eq_of_params hparams]
  operator _ hmake hoperands := by
    rw [List.forall₂_eq_eq_eq] at hoperands
    exact ⟨_, hoperands ▸ hmake, rfl⟩
  truth _ := rfl
  formula hformula ht place' := ⟨_, asFormula_of_ok (ht ▸ hformula) scope' place', rfl⟩

namespace Compiler

variable {compiler : Compiler σ} {place : Nat} {rule : Rule} {compiled : CompiledRule σ}

/-- A rule compiles at every place and whatever the rules without names are called. -/
theorem compile_renamed (h : compiler.compile place rule = .ok compiled) (compiler' : Compiler σ)
    (hwords : compiler'.toVocabulary = compiler.toVocabulary) (place' : Nat) :
    compiler'.compile place' rule =
      .ok { compiled with id := compiler'.ruleId place' rule } := by
  obtain ⟨_, hcompiled, rfl⟩ :=
    (compiler.renamed_compile compiler' hwords place place' rule).exists_of_ok h
  exact hcompiled

theorem name_of_compile (h : compiler.compile place rule = .ok compiled) :
    compiled.name? = rule.name? := by
  obtain ⟨attributes, shapes, facts, hattributes, -, -, -, -, hcompiled, -⟩ := compile_steps h
  obtain ⟨hentries, hothers⟩ := attributeTables_spec hattributes
  unfold CompiledRule.name? Rule.name? Rule.attribute?
  rw [hcompiled]
  cases hfound : rule.attributes.find? fun entry => entry.name = "ruleName" with
  | none =>
    have hnone : ∀ entry ∈ rule.attributes, entry.name ≠ "ruleName" := by
      simpa using List.find?_eq_none.mp hfound
    rw [(hothers "ruleName" hnone).1]
    rfl
  | some entry =>
    have hname : entry.name = "ruleName" := by simpa using List.find?_some hfound
    have hvalue := (hentries entry (List.mem_of_find?_eq_some hfound)).2.2.1
    rw [hname] at hvalue
    rw [hvalue]
    rfl

/-- What a rule is called does not matter where it has no name. -/
theorem masked_of_compile (h : compiler.compile place rule = .ok compiled) (compiler' : Compiler σ)
    (place' : Nat) :
    ({ compiled with id := compiler'.ruleId place' rule } : CompiledRule σ).masked =
      compiled.masked := by
  have hname := name_of_compile h
  have hid : compiled.id = compiler.ruleId place rule := by
    obtain ⟨_, _, _, -, -, -, -, hid, -⟩ := compile_steps h
    exact hid
  have hname' : ({ compiled with id := compiler'.ruleId place' rule } : CompiledRule σ).name? =
      rule.name? := hname
  unfold CompiledRule.masked
  rw [hname, hname']
  cases hrule : rule.name? with
  | none => rfl
  | some name =>
    dsimp only
    split
    · rfl
    · next hnamed =>
      have hsame : compiled.id = compiler'.ruleId place' rule := by
        rw [hid, ruleId, ruleId, hrule]
        simp [hnamed]
      rw [← hsame]

end Compiler
end Rulebook
