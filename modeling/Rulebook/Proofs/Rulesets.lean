import Rulebook.RulesetCache
import Rulebook.Proofs.Parts

/-!
# Rulesets and their rules

What each compiled rule has, every rule of a compiled ruleset has. What each compiled ruleset has,
every ruleset has that is kept, however often the rulesets are loaded again.
-/
namespace Rulebook

variable {σ : Type}

namespace Compiler

variable {compiler : Compiler σ} {now : Instant} {ruleset after : Ruleset σ}

/-- A rule that is accepted comes after all others, unless it is not valid now. -/
theorem rules_of_accept {rule : Rule} (h : compiler.accept now ruleset rule = .ok after) :
    after = ruleset ∨ ∃ compiled, compiler.compile ruleset.rules.length rule = .ok compiled ∧
      after.rules = ruleset.rules ++ [compiled] := by
  have hvalid : ∃ valid : Bool, (if valid then do
      let compiled ← compiler.compile ruleset.rules.length rule
      let names ← declareFacts ruleset.factNames compiled
      pure ⟨ruleset.rules ++ [compiled], names⟩
    else pure ruleset) = Except.ok after := by
    unfold accept at h
    dsimp only at h
    split at h
    · obtain ⟨valid, -, h⟩ := exists_of_bind_ok h
      exact ⟨valid, h⟩
    · exact ⟨true, h⟩
  obtain ⟨valid, h⟩ := hvalid
  split at h
  · obtain ⟨compiled, hcompiled, h⟩ := exists_of_bind_ok h
    obtain ⟨names, -, h⟩ := exists_of_bind_ok h
    cases h
    exact .inr ⟨compiled, hcompiled, rfl⟩
  · cases h
    exact .inl rfl

theorem forall_of_acceptAll {P : CompiledRule σ → Prop}
    (hcompile : ∀ place rule compiled, compiler.compile place rule = .ok compiled → P compiled)
    {rules : List Rule} (h : compiler.acceptAll now ruleset rules = .ok after)
    (hruleset : ∀ rule ∈ ruleset.rules, P rule) : ∀ rule ∈ after.rules, P rule := by
  induction rules generalizing ruleset with
  | nil =>
    cases h
    exact hruleset
  | cons rule rest ih =>
    unfold acceptAll at h
    split at h
    · next accepted haccept =>
      refine ih h ?_
      rcases rules_of_accept haccept with rfl | ⟨compiled, hcompiled, hrules⟩
      · exact hruleset
      · rw [hrules, List.forall_mem_append]
        exact ⟨hruleset, List.forall_mem_singleton.mpr (hcompile _ rule compiled hcompiled)⟩
    · split at h
      · cases h
      · exact ih h hruleset

/-- What all compiled rules have, all rules of a compiled ruleset have. -/
theorem forall_of_compileAll {P : CompiledRule σ → Prop}
    (hcompile : ∀ place rule compiled, compiler.compile place rule = .ok compiled → P compiled)
    {rules : List Rule} (h : compiler.compileAll now rules = .ok ruleset) :
    ∀ rule ∈ ruleset.rules, P rule := by
  refine forall_of_acceptAll hcompile h fun rule hrule => ?_
  cases hrule

end Compiler

namespace RulesetCache

variable {P : Ruleset σ → Prop} {cache : RulesetCache σ}

def All (P : Ruleset σ → Prop) (cache : RulesetCache σ) : Prop :=
  ∀ uri loaded, cache.kept? uri = some loaded → P loaded.ruleset

theorem all_empty (P : Ruleset σ → Prop) (refreshSeconds : Nat) :
    (RulesetCache.empty refreshSeconds).All P := by
  intro uri loaded hloaded
  cases hloaded

theorem All.openSlot (h : cache.All P) (uri : String) : (cache.openSlot uri).All P := by
  intro other loaded hloaded
  rw [kept?_openSlot] at hloaded
  exact h other loaded hloaded

theorem All.discardEmpty (h : cache.All P) (uri : String) : (cache.discardEmpty uri).All P := by
  intro other loaded hloaded
  rw [kept?_discardEmpty] at hloaded
  exact h other loaded hloaded

theorem All.keep (h : cache.All P) (uri : String) {ruleset : Ruleset σ} (hruleset : P ruleset) :
    (cache.keep uri ruleset).All P := by
  intro other loaded hloaded
  by_cases hother : uri = other
  · subst hother
    rw [kept?_keep_self] at hloaded
    cases hloaded
    exact hruleset
  · rw [kept?_keep_of_ne _ _ hother] at hloaded
    exact h other loaded hloaded

variable {source : RuleSource} {compile : List Rule → Except Failure (Ruleset σ)} {uri : String}

theorem compile_of_load {ruleset : Ruleset σ} (h : load source compile uri = .ok ruleset) :
    ∃ rules, compile rules = .ok ruleset := by
  unfold load at h
  obtain ⟨found, -, h⟩ := exists_of_bind_ok h
  cases found with
  | none => cases h
  | some rules => exact ⟨rules, h⟩

/-- Every ruleset that is handed out or kept has been compiled at some time. -/
theorem All.get (h : cache.All P) (hcompile : ∀ rules ruleset, compile rules = .ok ruleset →
    P ruleset) (source : RuleSource) (uri : String) :
    (∀ loaded, (cache.get source compile uri).1 = .ok loaded → P loaded.ruleset) ∧
      (cache.get source compile uri).2.All P := by
  have hopen := h.openSlot uri
  unfold RulesetCache.get
  generalize cache.openSlot uri = opened at hopen ⊢
  dsimp only
  split
  · next kept hfresh =>
    refine ⟨fun loaded hloaded => ?_, hopen⟩
    cases hloaded
    unfold fresh? at hfresh
    split at hfresh
    · cases hfresh
    · exact hopen uri kept hfresh
  · split
    · next ruleset hload =>
      obtain ⟨rules, hrules⟩ := compile_of_load hload
      have hruleset := hcompile rules ruleset hrules
      have hasked : RulesetCache.All P { opened with asked := opened.asked + 1 } := hopen
      refine ⟨fun loaded hloaded => ?_, hasked.keep uri hruleset⟩
      cases hloaded
      exact hruleset
    · split
      · next stale hstale =>
        refine ⟨fun loaded hloaded => ?_, hopen⟩
        cases hloaded
        exact hopen uri stale hstale
      · refine ⟨fun loaded hloaded => ?_, ?_⟩
        · cases hloaded
        · have hasked : RulesetCache.All P { opened with asked := opened.asked + 1 } := hopen
          exact hasked.discardEmpty uri

theorem All.evict (h : cache.All P) (uri : String) : (cache.evict uri).All P := by
  intro other loaded hloaded
  refine h other loaded ?_
  unfold RulesetCache.evict kept? at hloaded
  by_cases hother : uri = other
  · subst hother
    rw [Table.get?_remove_self] at hloaded
    cases hloaded
  · rw [Table.get?_remove_of_ne _ hother] at hloaded
    exact hloaded

theorem all_clear (P : Ruleset σ → Prop) (cache : RulesetCache σ) : cache.clear.All P := by
  intro uri loaded hloaded
  cases hloaded

end RulesetCache
end Rulebook
