import Mathlib.Data.List.TakeWhile
import Rulebook.Compiler
import Rulebook.Proofs.PathText

/-!
# References in placeholders

A placeholder has a reference as its text: a name, and behind the first point a path. The name and the
path are read apart, and a path may be empty. So a point at the end of the text is taken for the one
before a path, and gets lost. `placeholders_shown` says that nothing else does: the reference shows the
text that was written, and no segment is empty, unless the text ends with a point.
-/
namespace Rulebook

/-- A reference as it is written: the name, and the path behind a point. -/
def Reference.spelling (name : String) : Option String → List Char
  | none => name.toList
  | some path => name.toList ++ '.' :: path.toList

open Reference (spelling)

/-- What is written is split at the point behind the name. -/
theorem splitReference_spelling {name : String} (path : Option String) (hname : '.' ∉ name.toList) :
    splitReference (spelling name path) = (name, path) := by
  have hall : ∀ c ∈ name.toList, decide (c ≠ '.') = true := fun c hc =>
    decide_eq_true fun hpoint => hname (hpoint ▸ hc)
  unfold splitReference
  cases path with
  | none =>
    rw [spelling, List.takeWhile_eq_self_iff.mpr hall, List.dropWhile_eq_nil_iff.mpr hall,
      Prod.mk.injEq]
    exact ⟨String.ofList_toList, rfl⟩
  | some path =>
    rw [spelling, List.takeWhile_append_of_pos hall, List.dropWhile_append_of_pos hall]
    simp

/-- Nothing is lost in the split, and the name ends at the first point. -/
theorem spelling_splitReference (text : List Char) :
    spelling (splitReference text).1 (splitReference text).2 = text ∧
      '.' ∉ (splitReference text).1.toList := by
  have hwhole := List.takeWhile_append_dropWhile (p := (· ≠ '.')) (l := text)
  unfold splitReference
  constructor
  · cases hrest : text.dropWhile (· ≠ '.') with
    | nil =>
      rw [hrest] at hwhole
      simpa [spelling] using hwhole
    | cons c rest =>
      rw [hrest] at hwhole
      have hc : c = '.' := by
        have hhead := List.head?_dropWhile_not (· ≠ '.') text
        rw [hrest] at hhead
        simpa using hhead
      subst hc
      simpa [spelling] using hwhole
  · intro hmem
    rw [String.toList_ofList] at hmem
    simpa using List.mem_takeWhile_imp hmem

/-- A text without braces and dollar signs is what a placeholder stands for. -/
theorem placeholder?_eq_some {text : List Char} (hne : text ≠ [])
    (hplain : '\x7b' ∉ text ∧ '\x7d' ∉ text ∧ '$' ∉ text) :
    placeholder? (.string (String.ofList ('$' :: '\x7b' :: text ++ ['\x7d']))) = some text := by
  obtain ⟨hopen, hclose, hdollar⟩ := hplain
  have hany : text.any (fun c => c = '\x7b' || c = '\x7d' || c = '$') = false := by
    simp only [List.any_eq_false, Bool.or_eq_true, decide_eq_true_eq]
    rintro c hc ((rfl | rfl) | rfl)
    · exact hopen hc
    · exact hclose hc
    · exact hdollar hc
  simp [placeholder?, hne, hany]

namespace Reference

variable {r : Reference} {text : List Char} {base : Base} {name : String} {path : Option String}
  {shape : Shape}

/-- The reference shows the text as it was written, and no segment of the text is empty. -/
structure Shows (r : Reference) (text : List Char) : Prop where
  shown : r.text = String.ofList text
  segments : ∀ segment ∈ text.splitOn '.', segment ≠ []

/-- The text is shown unless a point ends it, which is left out. -/
structure ShowsButPoint (r : Reference) (text : List Char) : Prop where
  shows_iff : r.Shows text ↔ text.getLast? ≠ some '.'
  dropped : text.getLast? = some '.' → text = r.text.toList ++ ['.']

/-- Behind a point at the end stands an empty segment. -/
theorem Shows.getLast?_ne (h : r.Shows text) : text.getLast? ≠ some '.' := by
  intro hlast
  obtain ⟨first, rfl⟩ := List.getLast?_eq_some_iff.mp hlast
  refine h.segments [] ?_ rfl
  rw [List.splitOn_append_cons_self]
  exact List.mem_append_right _ List.mem_cons_self

theorem written_of_ne_nil {segments : Path} (h : segments ≠ []) :
    written name segments = name ++ "." ++ segments.text := by
  cases segments with
  | nil => exact absurd rfl h
  | cons segment rest => rfl

theorem make_steps (h : make base name path shape = .ok r) :
    (∀ segment ∈ r.path, segment.IsNamed) ∧ r.path.text = path.getD "" ∧
      r.text = written name r.path := by
  obtain ⟨segments, hparse, h⟩ := exists_of_bind_ok h
  obtain ⟨found, -, h⟩ := exists_of_bind_ok h
  cases h
  obtain ⟨hnamed, htext⟩ := Path.parse_eq_ok_iff.mp hparse
  exact ⟨hnamed, htext, rfl⟩

/-- A reference without a path shows its name alone. -/
theorem text_of_make (h : make base name path shape = .ok r) (hpath : path.getD "" = "") :
    r.text = name := by
  obtain ⟨hnamed, htext, hwritten⟩ := make_steps h
  have hempty : r.path = [] := by
    by_contra hne
    refine Path.chars_ne_nil hne hnamed ?_
    rw [← String.toList_inj, Path.text, String.toList_ofList, hpath] at htext
    exact htext
  rw [hwritten, hempty]
  rfl

theorem shows_of_make (h : make base name path shape = .ok r) (hname : name ≠ "")
    (hpoint : '.' ∉ name.toList) (hpath : path ≠ some "") : r.Shows (spelling name path) := by
  have hsingle : name.toList.splitOn '.' = [name.toList] := List.splitOn_eq_singleton hpoint
  have hnonempty : name.toList ≠ [] := by simpa using hname
  cases path with
  | none =>
    refine ⟨?_, ?_⟩
    · rw [text_of_make h rfl, spelling, String.ofList_toList]
    · rw [spelling, hsingle]
      exact List.forall_mem_singleton.mpr hnonempty
  | some path =>
    obtain ⟨hnamed, htext, hwritten⟩ := make_steps h
    have hne : r.path ≠ [] := by
      intro hempty
      rw [hempty] at htext
      exact hpath (congrArg some htext.symm)
    have hchars : Path.chars r.path = path.toList := by
      rw [← String.toList_ofList (l := Path.chars r.path)]
      exact congrArg String.toList htext
    refine ⟨?_, ?_⟩
    · rw [hwritten, written_of_ne_nil hne, htext, ← String.toList_inj]
      simp [spelling]
    · rw [spelling, List.splitOn_append_cons_self, hsingle, ← hchars,
        Path.splitOn_chars hne hnamed]
      refine List.forall_mem_cons.mpr ⟨hnonempty, List.forall_mem_map.mpr fun segment hsegment => ?_⟩
      exact (Path.isPiece_segmentChars (hnamed segment hsegment)).ne_nil

end Reference

/-- No attribute and no fact has the empty name. -/
def Scope.IsNamed (scope : Scope) : Prop :=
  "" ∉ Table.names scope.attributes ∧ "" ∉ Table.names scope.facts

namespace Scope

variable {scope : Scope} {text : List Char} {r : Reference}

instance (scope : Scope) : Decidable scope.IsNamed := inferInstanceAs (Decidable (_ ∧ _))

theorem IsNamed.base? (h : scope.IsNamed) : scope.base? "" = none := by
  have hget : ∀ table : Table Shape, "" ∉ table.names → Table.get? table "" = none := by
    intro table hnames
    cases hfound : Table.get? table "" with
    | none => rfl
    | some shape => exact absurd (List.mem_map_of_mem (Table.mem_of_get? hfound)) hnames
  rw [Scope.base?, hget _ h.1, hget _ h.2]
  rfl

/-- What a placeholder refers to is shown as it was written, up to a point at the end. -/
theorem reference_shows (h : scope.IsNamed)
    (hr : scope.reference (splitReference text).1 (splitReference text).2 = .ok r) :
    r.ShowsButPoint text := by
  obtain ⟨hspelled, hpoint⟩ := spelling_splitReference text
  generalize (splitReference text).1 = name at hr hspelled hpoint
  generalize (splitReference text).2 = path at hr hspelled
  subst hspelled
  unfold reference at hr
  dsimp only at hr
  split at hr
  · cases hr
  · next base shape hbase =>
    have hname : name ≠ "" := by
      rintro rfl
      cases h.base?.symm.trans hbase
    split at hr
    · next made hmade =>
      cases hr
      by_cases hpath : path = some ""
      · -- An empty path is read as none, so the point before it is not shown.
        have htext := Reference.text_of_make hmade (by rw [hpath]; rfl)
        have hspelled : spelling name path = name.toList ++ ['.'] := by rw [hpath]; rfl
        have hlast : (spelling name path).getLast? = some '.' := by rw [hspelled]; simp
        refine ⟨⟨fun hshows => hshows.getLast?_ne, fun hne => absurd hlast hne⟩, fun _ => ?_⟩
        rw [htext, hspelled]
      · have hshows := Reference.shows_of_make hmade hname hpoint hpath
        exact ⟨⟨fun _ => hshows.getLast?_ne, fun _ => hshows⟩,
          fun hlast => absurd hlast hshows.getLast?_ne⟩
    · cases hr

end Scope

namespace Vocabulary

variable {σ : Type} {words : Vocabulary σ} {scope : Scope} {v : Json} {text : List Char}

theorem term_of_placeholder (hplaceholder : placeholder? v = some text) (place : String)
    (kind : Option Kind) :
    words.term scope place (.value kind v) = (do
      pure (.reference (← scope.reference (splitReference text).1 (splitReference text).2))) := by
  rw [term.eq_def]
  dsimp only
  rw [hplaceholder]

theorem predicate_of_placeholder (hplaceholder : placeholder? v = some text) (place : String)
    (kind : Option Kind) :
    words.predicate scope place (.value kind v) =
      (do asFormula scope place (← words.term scope place (.value kind v))) := by
  unfold predicate
  dsimp only
  rw [hplaceholder]

/-- A placeholder that compiles is a reference, where it is an operand and where it is the predicate.
Unless the text ends with a point, no segment of it is empty and the reference shows it as it is. -/
theorem placeholders_shown (hscope : scope.IsNamed) (hplaceholder : placeholder? v = some text)
    (words : Vocabulary σ) (place : String) (kind : Option Kind) :
    (∀ t, words.term scope place (.value kind v) = .ok t →
      ∃ r, t = .reference r ∧ r.ShowsButPoint text) ∧
    ∀ formula, words.predicate scope place (.value kind v) = .ok formula →
      ∃ r, formula = .value (.reference r) ∧ r.ShowsButPoint text := by
  have hterm : ∀ t, words.term scope place (.value kind v) = .ok t →
      ∃ r, t = .reference r ∧ r.ShowsButPoint text := by
    intro t ht
    rw [term_of_placeholder hplaceholder] at ht
    obtain ⟨r, hr, ht⟩ := exists_of_bind_ok ht
    cases ht
    exact ⟨r, rfl, Scope.reference_shows hscope hr⟩
  refine ⟨hterm, fun formula hformula => ?_⟩
  rw [predicate_of_placeholder hplaceholder] at hformula
  obtain ⟨t, ht, hformula⟩ := exists_of_bind_ok hformula
  obtain ⟨r, rfl, hshows⟩ := hterm t ht
  unfold asFormula at hformula
  dsimp only at hformula
  split at hformula
  · cases hformula
    exact ⟨r, rfl, hshows⟩
  · cases hformula

/-- A scope with one fact, whose type is not known. -/
def airlineScope : Scope := ⟨"flight", [], [("airline", .any)]⟩

/-- A vocabulary without words. -/
def noWords : Vocabulary Unit := ⟨[], [], [], []⟩

theorem airline_fleet_shown :
    placeholder? (.string "$\x7bairline.fleet\x7d") = some "airline.fleet".toList ∧
    noWords.term airlineScope "predicate" (.value none (.string "$\x7bairline.fleet\x7d")) =
      .ok (.reference ⟨.named "airline", [⟨"fleet", false⟩], .any, "airline.fleet"⟩) ∧
    (∀ t, noWords.term airlineScope "predicate"
        (.value none (.string "$\x7bairline.fleet\x7d")) = .ok t →
      ∃ r, t = .reference r ∧ r.ShowsButPoint "airline.fleet".toList) ∧
    ∀ formula, noWords.predicate airlineScope "predicate"
        (.value none (.string "$\x7bairline.fleet\x7d")) = .ok formula →
      ∃ r, formula = .value (.reference r) ∧ r.ShowsButPoint "airline.fleet".toList := by
  have hplaceholder :
      placeholder? (.string "$\x7bairline.fleet\x7d") = some "airline.fleet".toList := by
    decide +kernel
  have hscope : airlineScope.IsNamed := by decide
  exact ⟨hplaceholder, by rfl, placeholders_shown hscope hplaceholder noWords "predicate" none⟩

/-- The point at the end is taken without a path behind it, and is not shown. -/
theorem airline_point_dropped :
    noWords.term airlineScope "predicate" (.value none (.string "$\x7bairline.\x7d")) =
      .ok (.reference ⟨.named "airline", [], .any, "airline"⟩) ∧
    placeholder? (.string "$\x7bairline.\x7d") = some "airline.".toList ∧
    airlineScope.IsNamed ∧
    [] ∈ "airline.".toList.splitOn '.' ∧
    ¬ Reference.Shows ⟨.named "airline", [], .any, "airline"⟩ "airline.".toList := by
  refine ⟨by rfl, by decide +kernel, by decide, by decide, fun h => ?_⟩
  exact absurd h.shown (by decide)

end Vocabulary
end Rulebook
