import Rulebook.PatternLanguage

/-!
# Grammars of patterns

A language of patterns has a grammar: texts are read as expressions, and expressions match stretches
of texts. `PatternGrammar.Lawful` says what is known of the parts that anchored patterns are made
of. From that alone it follows how a pattern is read when it is put between the two ends of a text,
and in which cases something else comes of it.
-/
namespace Rulebook

structure PatternGrammar where
  Expression : Type
  /-- What a text is read as, however large that is. -/
  parse : String → Option Expression
  /-- The expression keeps to the limits of nesting and size. -/
  fits : Expression → Bool
  /-- What is wrong with a text. -/
  refusal : String → String
  occursIn : Expression → String → Bool
  /-- The expression matches the stretch of the text from the first position to the second. -/
  Spans : Expression → String → Nat → Nat → Prop
  textStart : Expression
  textEnd : Expression
  group : Expression → Expression
  sequence : List Expression → Expression

namespace PatternGrammar

open PatternLanguage (anchored)

def language (grammar : PatternGrammar) : PatternLanguage where
  read source :=
    match grammar.parse source with
    | some e => if grammar.fits e then .ok ⟨grammar.occursIn e⟩ else .error (grammar.refusal source)
    | none => .error (grammar.refusal source)

/-- The text is a pattern of the language. -/
def Accepts (grammar : PatternGrammar) (source : String) : Prop :=
  ∃ e, grammar.parse source = some e ∧ grammar.fits e = true

theorem accepts_iff {grammar : PatternGrammar} {source : String} :
    grammar.Accepts source ↔ (grammar.parse source).any grammar.fits = true := by
  simp [Accepts, Option.any_eq_true]

instance {grammar : PatternGrammar} {source : String} : Decidable (grammar.Accepts source) :=
  decidable_of_iff _ accepts_iff.symm

/-- Expressions match stretches that follow one another. -/
def SpansInTurn (grammar : PatternGrammar) (text : String) :
    List grammar.Expression → Nat → Nat → Prop
  | [], i, j => i = j ∧ i ≤ text.length
  | e :: rest, i, k => ∃ j, grammar.Spans e text i j ∧ grammar.SpansInTurn text rest j k

/-- A text that is read with a parenthesis behind it just as well has a comment at its end. -/
def EndsInComment (grammar : PatternGrammar) (source : String) : Prop :=
  ∃ e, grammar.parse (source ++ ")") = some e

theorem endsInComment_iff {grammar : PatternGrammar} {source : String} :
    grammar.EndsInComment source ↔ (grammar.parse (source ++ ")")).isSome = true :=
  Option.isSome_iff_exists.symm

instance {grammar : PatternGrammar} {source : String} : Decidable (grammar.EndsInComment source) :=
  decidable_of_iff _ endsInComment_iff.symm

def inParentheses (source : String) : String := "(?:" ++ source ++ ")"

structure Lawful (grammar : PatternGrammar) : Prop where
  /-- A pattern is found in the texts in which it matches some stretch. -/
  occursIn_iff {source : String} {e : grammar.Expression} (text : String) :
    grammar.parse source = some e → grammar.fits e = true →
      (grammar.occursIn e text = true ↔ ∃ i j, grammar.Spans e text i j)
  spans_textStart {text : String} {i j : Nat} :
    grammar.Spans grammar.textStart text i j ↔ i = 0 ∧ j = 0
  spans_textEnd {text : String} {i j : Nat} :
    grammar.Spans grammar.textEnd text i j ↔ i = text.length ∧ j = text.length
  spans_group {e : grammar.Expression} {text : String} {i j : Nat} :
    grammar.Spans (grammar.group e) text i j ↔ grammar.Spans e text i j
  spans_sequence {es : List grammar.Expression} {text : String} {i j : Nat} :
    grammar.Spans (grammar.sequence es) text i j ↔ grammar.SpansInTurn text es i j
  /-- What can be read can be put in a group, where no comment takes the parenthesis. -/
  parse_group {source : String} {e : grammar.Expression} : grammar.parse source = some e →
    ¬ grammar.EndsInComment source → grammar.parse (inParentheses source) = some (grammar.group e)
  /-- A group may stand in a sequence, behind a caret and before a dollar sign. -/
  parse_sequence {source : String} {e : grammar.Expression} : grammar.parse source = some e →
    grammar.parse (inParentheses source) = some (grammar.group e) →
      grammar.parse ("^" ++ inParentheses source ++ "$") =
        some (grammar.sequence [grammar.textStart, grammar.group e, grammar.textEnd])
  /-- What can be read closes no group that is opened before it. -/
  parse_unclosed {source : String} {e : grammar.Expression} : grammar.parse source = some e →
    grammar.parse ("^(?:" ++ source) = none
  /-- A comment takes the rest of its line. -/
  parse_comment {source : String} {e : grammar.Expression} : grammar.parse source = some e →
    grammar.EndsInComment source →
      grammar.parse ("^(?:" ++ source ++ ")$") = grammar.parse ("^(?:" ++ source)

variable {grammar : PatternGrammar} {source text : String} {e : grammar.Expression} {i j : Nat}

/-- The text is no pattern, but becomes one when the ends and the group are put around it. -/
def Stray (grammar : PatternGrammar) (source : String) : Prop :=
  grammar.parse source = none ∧ grammar.Accepts (anchored source)

/-- The text is a pattern, and the end of a group behind it would belong to a comment. -/
def Trailing (grammar : PatternGrammar) (source : String) : Prop :=
  grammar.Accepts source ∧ grammar.EndsInComment source

/-- The expression between the two ends of a text. -/
def whole (grammar : PatternGrammar) (e : grammar.Expression) : grammar.Expression :=
  grammar.sequence [grammar.textStart, grammar.group e, grammar.textEnd]

/-- Only one of the pattern and the one for whole texts keeps to the limits. -/
def Borderline (grammar : PatternGrammar) (source : String) : Prop :=
  ∃ e, grammar.parse source = some e ∧ ¬ grammar.EndsInComment source ∧
    grammar.fits e ≠ grammar.fits (grammar.whole e)

namespace Lawful

theorem spans_whole_iff (h : grammar.Lawful) :
    grammar.Spans (grammar.whole e) text i j ↔
      (i = 0 ∧ j = text.length) ∧ grammar.Spans e text 0 text.length := by
  simp only [whole, h.spans_sequence, SpansInTurn, h.spans_textStart, h.spans_group,
    h.spans_textEnd]
  constructor
  · rintro ⟨_, ⟨rfl, rfl⟩, _, he, _, ⟨rfl, rfl⟩, rfl, -⟩
    exact ⟨⟨rfl, rfl⟩, he⟩
  · rintro ⟨⟨rfl, rfl⟩, he⟩
    exact ⟨0, ⟨rfl, rfl⟩, _, he, _, ⟨rfl, rfl⟩, rfl, Nat.le_refl _⟩

theorem parse_anchored (h : grammar.Lawful) (hparse : grammar.parse source = some e)
    (hcomment : ¬ grammar.EndsInComment source) :
    grammar.parse (anchored source) = some (grammar.whole e) := by
  have hanchored : anchored source = "^" ++ inParentheses source ++ "$" := by
    simp only [anchored, inParentheses, String.append_assoc]
    rfl
  rw [hanchored]
  exact h.parse_sequence hparse (h.parse_group hparse hcomment)

theorem parse_anchored_of_comment (h : grammar.Lawful) (hparse : grammar.parse source = some e)
    (hcomment : grammar.EndsInComment source) : grammar.parse (anchored source) = none :=
  (h.parse_comment hparse hcomment).trans (h.parse_unclosed hparse)

end Lawful

theorem read_ok_iff :
    (∃ read, grammar.language.read source = .ok read) ↔ grammar.Accepts source := by
  simp only [language, Accepts]
  cases grammar.parse source with
  | none => simp
  | some e =>
    by_cases hfits : grammar.fits e = true
    · simp [hfits]
    · simp [hfits]

theorem read_of_parse (hparse : grammar.parse source = some e) (hfits : grammar.fits e = true) :
    grammar.language.read source = .ok ⟨grammar.occursIn e⟩ := by
  simp only [language, hparse, hfits, if_true]

theorem accepts_iff_fits (hparse : grammar.parse source = some e) :
    grammar.Accepts source ↔ grammar.fits e = true := by
  simp [Accepts, hparse]

theorem not_accepts (hparse : grammar.parse source = none) : ¬ grammar.Accepts source := by
  simp [Accepts, hparse]

end PatternGrammar
end Rulebook
