import Rulebook.Operator
import Rulebook.Proofs.Evaluation
import Rulebook.Proofs.GrammarLaws

/-!
# Matches of whole texts

A pattern is looked for in whole texts by putting its text between two ends and reading the result.
For most patterns that is what a match of the whole text by the pattern itself means. It is not if
the text is a pattern between the ends only, as one is that closes the group around it and opens
another, nor if it takes the end of that group for part of a comment, nor at the limits of size. All
this holds in every language with a lawful grammar (`Operator.fullMatch_iff`).
-/
namespace Rulebook.Operator

open PatternLanguage (anchored)

variable {σ : Type} {grammar : PatternGrammar} {subject : Term σ} {shape : Shape} {source : String}
  {e : grammar.Expression}

/-- A constant pattern is accepted just if it is a pattern by itself, and then the formula is true
of the texts that a match by that pattern spans. -/
structure FullMatchLaw (grammar : PatternGrammar) (subject : Term σ) (shape : Shape)
    (source : String) : Prop where
  accepted :
    (∃ formula, makePattern subject (.constant (.string source) shape) grammar.language =
      .ok formula) ↔ grammar.Accepts source
  spans : ∀ formula e,
    makePattern subject (.constant (.string source) shape) grammar.language = .ok formula →
      grammar.parse source = some e → ∀ env session after text,
        (subject.evaluate env).run session = (.ok (.string text), after) →
          ∃ found, (formula.test env).run session = (.ok (.ofBool found), after) ∧
            (found = true ↔ grammar.Spans e text 0 text.length)

theorem makePattern_constant (language : PatternLanguage) :
    makePattern subject (.constant (.string source) shape) language =
      match language.readWhole source with
      | .ok read => .ok (.matchesPattern subject read)
      | .error fault => .error (.badPattern source fault) := rfl

theorem exists_makePattern_ok_iff :
    (∃ formula, makePattern subject (.constant (.string source) shape) grammar.language =
      .ok formula) ↔ grammar.Accepts (anchored source) := by
  rw [makePattern_constant, PatternLanguage.readWhole, ← PatternGrammar.read_ok_iff]
  cases grammar.language.read (anchored source) with
  | error fault => simp
  | ok read => simp

theorem run_matchesPattern {pattern : TextPattern} {env : Environment} {session after : Session σ}
    {text : String} (h : (subject.evaluate env).run session = (.ok (.string text), after)) :
    ((Formula.matchesPattern subject pattern).test env).run session =
      (.ok (.ofBool (pattern.occursIn text)), after) := by
  unfold Formula.test
  rw [Evaluation.run_bind_ok h]
  rfl

theorem FullMatchLaw.anchored_iff (h : FullMatchLaw grammar subject shape source) :
    grammar.Accepts (anchored source) ↔ grammar.Accepts source :=
  exists_makePattern_ok_iff.symm.trans h.accepted

theorem fullMatchLaw_of_rejected (hwhole : ¬ grammar.Accepts (anchored source))
    (halone : ¬ grammar.Accepts source) : FullMatchLaw grammar subject shape source where
  accepted := exists_makePattern_ok_iff.trans (iff_of_false hwhole halone)
  spans formula _ hformula := absurd (exists_makePattern_ok_iff.mp ⟨formula, hformula⟩) hwhole

/-- The formula of a pattern that is read between the two ends as it is read by itself. -/
theorem fullMatchLaw_of_whole (h : grammar.Lawful) (halone : grammar.parse source = some e)
    (hwhole : grammar.parse (anchored source) = some (grammar.whole e))
    (hfits : grammar.fits e = true) (hfits' : grammar.fits (grammar.whole e) = true) :
    FullMatchLaw grammar subject shape source where
  accepted := exists_makePattern_ok_iff.trans (iff_of_true ⟨_, hwhole, hfits'⟩ ⟨e, halone, hfits⟩)
  spans formula e' hformula halone' env session after text hsubject := by
    rw [makePattern_constant, PatternLanguage.readWhole,
      PatternGrammar.read_of_parse hwhole hfits'] at hformula
    cases hformula
    cases halone.symm.trans halone'
    refine ⟨_, run_matchesPattern hsubject, (h.occursIn_iff text hwhole hfits').trans ?_⟩
    simp only [h.spans_whole_iff]
    exact ⟨fun ⟨_, _, _, hspans⟩ => hspans, fun hspans => ⟨_, _, ⟨rfl, rfl⟩, hspans⟩⟩

theorem fullMatchLaw_iff_of_invalid (halone : grammar.parse source = none) :
    FullMatchLaw grammar subject shape source ↔ ¬ grammar.Accepts (anchored source) := by
  have hinvalid := PatternGrammar.not_accepts halone
  constructor
  · exact fun hlaw hwhole => hinvalid (hlaw.anchored_iff.mp hwhole)
  · exact fun hwhole => fullMatchLaw_of_rejected hwhole hinvalid

theorem fullMatchLaw_iff_of_comment (h : grammar.Lawful) (halone : grammar.parse source = some e)
    (hcomment : grammar.EndsInComment source) :
    FullMatchLaw grammar subject shape source ↔ ¬ grammar.Accepts source := by
  -- The anchored pattern is none, whatever its size.
  have hwhole := PatternGrammar.not_accepts (h.parse_anchored_of_comment halone hcomment)
  constructor
  · exact fun hlaw hvalid => hwhole (hlaw.anchored_iff.mpr hvalid)
  · exact fullMatchLaw_of_rejected hwhole

theorem fullMatchLaw_iff_of_plain (h : grammar.Lawful) (halone : grammar.parse source = some e)
    (hcomment : ¬ grammar.EndsInComment source) :
    FullMatchLaw grammar subject shape source ↔
      grammar.fits e = grammar.fits (grammar.whole e) := by
  have hwhole := h.parse_anchored halone hcomment
  have hvalid := PatternGrammar.accepts_iff_fits halone
  have hanchored := PatternGrammar.accepts_iff_fits hwhole
  constructor
  · intro hlaw
    exact Bool.eq_iff_iff.mpr (hvalid.symm.trans (hlaw.anchored_iff.symm.trans hanchored))
  · intro hsame
    by_cases hfits : grammar.fits e = true
    · exact fullMatchLaw_of_whole h halone hwhole hfits (hsame ▸ hfits)
    · refine fullMatchLaw_of_rejected ?_ ?_
      · rwa [hanchored, ← hsame]
      · rwa [hvalid]

/-- The law holds unless the text is a pattern between the ends only, takes the end of the group for
part of a comment, or is at the limits of size. -/
theorem fullMatch_iff (h : grammar.Lawful) (subject : Term σ) (shape : Shape) (source : String) :
    FullMatchLaw grammar subject shape source ↔
      ¬ (grammar.Stray source ∨ grammar.Trailing source ∨ grammar.Borderline source) := by
  cases halone : grammar.parse source with
  | none =>
    rw [fullMatchLaw_iff_of_invalid halone, not_iff_not]
    constructor
    · exact fun hwhole => .inl ⟨halone, hwhole⟩
    · rintro (⟨-, hwhole⟩ | ⟨hvalid, -⟩ | ⟨e, he, -⟩)
      · exact hwhole
      · exact absurd hvalid (PatternGrammar.not_accepts halone)
      · cases halone.symm.trans he
  | some e =>
    by_cases hcomment : grammar.EndsInComment source
    · rw [fullMatchLaw_iff_of_comment h halone hcomment, not_iff_not]
      constructor
      · exact fun hvalid => .inr (.inl ⟨hvalid, hcomment⟩)
      · rintro (⟨hnone, -⟩ | ⟨hvalid, -⟩ | ⟨-, -, hplain, -⟩)
        · cases halone.symm.trans hnone
        · exact hvalid
        · exact absurd hcomment hplain
    · rw [fullMatchLaw_iff_of_plain h halone hcomment, ← not_ne_iff, not_iff_not]
      constructor
      · exact fun hdiffer => .inr (.inr ⟨e, halone, hcomment, hdiffer⟩)
      · rintro (⟨hnone, -⟩ | ⟨-, htrailing⟩ | ⟨e', he', -, hdiffer⟩)
        · cases halone.symm.trans hnone
        · exact absurd htrailing hcomment
        · cases halone.symm.trans he'
          exact hdiffer

/-- In the language at hand a choice is matched whole. A comment at the end of a pattern hides the
end of the group, and parentheses the wrong way round close it and open another. -/
theorem choice_matched :
    Pattern.grammar.language = Pattern.language ∧ Pattern.grammar.Lawful ∧
    FullMatchLaw Pattern.grammar (.ofJson (.string "a") : Term Unit) (.ofKind .string) "a|b" ∧
    ¬ FullMatchLaw Pattern.grammar (.ofJson (.string "a") : Term Unit) (.ofKind .string)
      "(?x)a # letter" ∧
    ¬ FullMatchLaw Pattern.grammar (.ofJson (.string "a") : Term Unit) (.ofKind .string)
      "a)|(b" := by
  have hplain : ¬ Pattern.grammar.EndsInComment "a|b" := by decide +kernel
  have hparse : Pattern.grammar.parse "a|b" = some
      (.choice [.leaf (.one (.single 'a')), .leaf (.one (.single 'b'))]) := rfl
  have hsame : Pattern.grammar.fits
        (.choice [.leaf (.one (.single 'a')), .leaf (.one (.single 'b'))]) =
      Pattern.grammar.fits (Pattern.grammar.whole
        (.choice [.leaf (.one (.single 'a')), .leaf (.one (.single 'b'))])) := by decide +kernel
  refine ⟨Pattern.grammar_language, Pattern.grammar_lawful,
    (fullMatch_iff Pattern.grammar_lawful _ _ _).mpr ?_,
    fun hlaw => (fullMatch_iff Pattern.grammar_lawful _ _ _).mp hlaw (.inr (.inl ?_)),
    fun hlaw => (fullMatch_iff Pattern.grammar_lawful _ _ _).mp hlaw (.inl ?_)⟩
  · rintro (⟨h, -⟩ | ⟨-, h⟩ | ⟨e, he, -, hdiffer⟩)
    · cases hparse.symm.trans h
    · exact hplain h
    · cases hparse.symm.trans he
      exact hdiffer hsame
  · exact ⟨by decide +kernel, by decide +kernel⟩
  · exact ⟨rfl, by decide +kernel⟩

/-- Of two patterns for the letter `a`, one is refused though it is a pattern by itself, and one is
accepted that is none. -/
theorem ends_confused :
    (Pattern.grammar.Accepts "(?x)a # letter" ∧
      ¬ FullMatchLaw Pattern.grammar (.ofJson (.string "a") : Term Unit) (.ofKind .string)
        "(?x)a # letter") ∧
    ¬ Pattern.grammar.Accepts "a)|(b" ∧
      ¬ FullMatchLaw Pattern.grammar (.ofJson (.string "a") : Term Unit) (.ofKind .string)
        "a)|(b" := by
  have hcomment : Pattern.grammar.Accepts "(?x)a # letter" := by decide +kernel
  have hrefused : ¬ Pattern.grammar.Accepts (anchored "(?x)a # letter") := by decide +kernel
  have hstray : ¬ Pattern.grammar.Accepts "a)|(b" := by decide +kernel
  have haccepted : Pattern.grammar.Accepts (anchored "a)|(b") := by decide +kernel
  exact ⟨⟨hcomment, fun hlaw => hrefused (hlaw.anchored_iff.mpr hcomment)⟩,
    hstray, fun hlaw => hstray (hlaw.anchored_iff.mp haccepted)⟩

end Rulebook.Operator
