import Mathlib.Data.List.Induction
import Rulebook.Proofs.Acceptance
import Rulebook.Proofs.Ranking

/-!
# Lenient loading

A lenient compiler keeps a rule if the rules that it has kept before allow it. Which rules these are
can be said without the run: `Compiler.Chooses` does. Compiling the chosen rules alone and strictly
makes the same ruleset, apart from what rules without names are called.
-/
namespace Rulebook.Compiler

variable {σ : Type} {compiler compiler' : Compiler σ} {now : Instant} {kept ordered : List Rule}
  {ruleset ruleset' : Ruleset σ} {chosen : Rule → Bool}

/-- A rule is chosen if it is admitted after the chosen rules that stand before it. -/
def Chooses (compiler : Compiler σ) (now : Instant) (ordered : List Rule) (chosen : Rule → Bool) :
    Prop :=
  ∀ before rule after, ordered = before ++ rule :: after →
    (chosen rule = true ↔ compiler.Admits now (before.filter chosen) rule)

/-- Neither being strict nor what rules without names are called decides what is kept. -/
theorem keep_variant (compiler : Compiler σ) (now : Instant) (strict : Bool)
    (anonymous : Nat → String) :
    { compiler with strict, anonymous }.keep now = compiler.keep now := by
  funext kept rule
  refine if_congr ⟨fun h => ?_, fun h => ?_⟩ rfl rfl
  · obtain ⟨compiled, hcompiled⟩ := h.compiles
    exact ⟨h.inForce, ⟨_, compile_renamed hcompiled compiler rfl 0⟩, h.agrees⟩
  · obtain ⟨compiled, hcompiled⟩ := h.compiles
    have hrenamed := compile_renamed hcompiled { compiler with strict, anonymous } rfl 0
    exact ⟨h.inForce, ⟨_, hrenamed⟩, h.agrees⟩

/-- A rule that is looked at is kept just if it goes with all rules that are kept in the end. -/
theorem admits_all_iff {before after : List Rule} {rule : Rule}
    (h : ordered = before ++ rule :: after) :
    compiler.Admits now (ordered.foldl (compiler.keep now) []) rule ↔
      compiler.Admits now (before.foldl (compiler.keep now) []) rule := by
  subst h
  rw [List.foldl_append, List.foldl_cons]
  constructor
  · refine fun hadmits => hadmits.subset ?_
    refine List.Subset.trans ?_ (subset_foldl_keep after)
    exact subset_foldl_keep [rule]
  · intro hadmits
    have hcoherent := ((compiler.coherent_nil now).foldl_keep before).keep rule |>.foldl_keep after
    refine hcoherent rule (subset_foldl_keep after ?_)
    simp [keep, hadmits]

theorem foldl_keep_eq_filter
    (h : ∀ before rule after, ordered = before ++ rule :: after →
      (chosen rule = true ↔ compiler.Admits now (before.foldl (compiler.keep now) []) rule)) :
    ordered.foldl (compiler.keep now) [] = ordered.filter chosen := by
  induction ordered using List.reverseRecOn with
  | nil => rfl
  | append_singleton before rule ih =>
    have hbefore : before.foldl (compiler.keep now) [] = before.filter chosen := by
      refine ih fun earlier other later hsplit => h earlier other (later ++ [rule]) ?_
      rw [hsplit, List.append_assoc, List.cons_append]
    have hrule := h before rule [] rfl
    rw [List.foldl_concat, List.filter_append, keep, hbefore]
    rw [hbefore] at hrule
    by_cases hchosen : chosen rule = true
    · rw [if_pos (hrule.mp hchosen), List.filter_cons_of_pos hchosen, List.filter_nil]
    · rw [if_neg (mt hrule.mpr hchosen), List.filter_cons_of_neg hchosen, List.filter_nil,
        List.append_nil]

/-- The rules that are kept are chosen ones. -/
theorem exists_chooses (compiler : Compiler σ) (now : Instant) (ordered : List Rule) :
    ∃ chosen, compiler.Chooses now ordered chosen ∧
      ordered.foldl (compiler.keep now) [] = ordered.filter chosen := by
  let chosen : Rule → Bool := fun rule =>
    decide (compiler.Admits now (ordered.foldl (compiler.keep now) []) rule)
  have hchosen : ∀ before rule after, ordered = before ++ rule :: after →
      (chosen rule = true ↔ compiler.Admits now (before.foldl (compiler.keep now) []) rule) := by
    intro before rule after hsplit
    rw [decide_eq_true_iff, admits_all_iff hsplit]
  refine ⟨chosen, fun before rule after hsplit => ?_, foldl_keep_eq_filter hchosen⟩
  have hbefore : before.foldl (compiler.keep now) [] = before.filter chosen := by
    refine foldl_keep_eq_filter fun earlier other later h =>
      hchosen earlier other (later ++ rule :: after) ?_
    rw [hsplit, h, List.append_assoc, List.cons_append]
  rw [hchosen before rule after hsplit, hbefore]

/-- Rules that could be kept after all the others are kept. -/
theorem foldl_keep_of_coherent {rules : List Rule} (h : compiler.Coherent now (kept ++ rules)) :
    rules.foldl (compiler.keep now) kept = kept ++ rules := by
  induction rules generalizing kept with
  | nil => rw [List.append_nil, List.foldl_nil]
  | cons rule rest ih =>
    have hadmits : compiler.Admits now kept rule :=
      (h rule (by simp)).subset (List.subset_append_left _ _)
    rw [List.append_cons] at h
    rw [List.foldl_cons, keep, if_pos hadmits, ih h, ← List.append_cons]

/-- The rules that are kept make one ruleset, whatever rules without names are called. -/
theorem Loads.masked_eq (h : compiler.Loads kept ruleset) (h' : compiler'.Loads kept ruleset')
    (hwords : compiler'.toVocabulary = compiler.toVocabulary) :
    ruleset'.masked = ruleset.masked := by
  have hrules : ruleset'.rules.map CompiledRule.masked = ruleset.rules.map CompiledRule.masked := by
    refine List.ext_getElem (by simp [h.length_eq, h'.length_eq]) fun place hplace' hplace => ?_
    rw [List.length_map] at hplace hplace'
    have hrule : place < kept.length := h.length_eq ▸ hplace
    have hcompiled : compiler.compile place kept[place] = .ok ruleset.rules[place] := by
      simpa [hrule, hplace] using congrArg (·[place]?) h.rules
    have hcompiled' : compiler'.compile place kept[place] = .ok ruleset'.rules[place] := by
      simpa [hrule, hplace'] using congrArg (·[place]?) h'.rules
    have hsame := (compile_renamed hcompiled compiler' hwords place).symm.trans hcompiled'
    rw [List.getElem_map, List.getElem_map, ← Except.ok.inj hsame,
      masked_of_compile hcompiled compiler' place]
  unfold Ruleset.masked
  rw [hrules, h.factNames, h'.factNames]

/-- Lenient loading always makes a ruleset. It has the chosen rules, ranked, and nothing else; and
it is the one that strict loading makes of the chosen rules, which it does not refuse. -/
theorem lenient_loads (compiler : Compiler σ) (now : Instant) (rules : List Rule)
    (anonymous : Nat → String) :
    ∃ (ordered : List Rule) (chosen : Rule → Bool) (ruleset strictly : Ruleset σ),
      Rule.Ranks ordered (rules.filter fun rule => !rule.isIgnored) ∧
      compiler.Chooses now ordered chosen ∧
      { compiler with strict := false }.compileAll now rules = .ok ruleset ∧
      compiler.Loads (ordered.filter chosen) ruleset ∧
      { compiler with strict := true, anonymous }.compileAll now
        (rules.filter fun rule => !rule.isIgnored && chosen rule) = .ok strictly ∧
      strictly.masked = ruleset.masked := by
  obtain ⟨chosen, hchooses, hkept⟩ := compiler.exists_chooses now (ranked rules)
  have hlenient := compiler.keep_variant now false compiler.anonymous
  have hstrict := compiler.keep_variant now true anonymous
  have hcoherent := (coherent_nil { compiler with strict := true, anonymous } now).foldl_keep
    (ranked rules)
  rw [hstrict, hkept] at hcoherent
  rcases (loads_empty { compiler with strict := false }).acceptAll (coherent_nil _ now)
    (ranked rules) with ⟨ruleset, hruleset, hloads⟩ | ⟨hfalse, -⟩
  · rw [hlenient, hkept] at hloads
    rcases (loads_empty { compiler with strict := true, anonymous }).acceptAll (coherent_nil _ now)
      ((ranked rules).filter chosen) with ⟨strictly, hstrictly, hsame⟩ | ⟨-, hincoherent, -⟩
    · rw [foldl_keep_of_coherent hcoherent] at hsame
      refine ⟨ranked rules, chosen, ruleset, strictly, ranked_ranks rules, hchooses, hruleset,
        ⟨hloads.rules, hloads.factNames⟩, ?_, hloads.masked_eq hsame rfl⟩
      rw [compileAll, ranked_filter]
      exact hstrictly
    · exact absurd hcoherent hincoherent
  · cases hfalse

end Rulebook.Compiler
