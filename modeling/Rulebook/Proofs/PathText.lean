import Mathlib.Data.List.Basic
import Rulebook.Proofs.Evaluation

/-!
# The text of paths

A text is split at its points, and each piece is read as one segment. `Path.IsWritten` is the form of
the texts that paths have, said without the reader. `parse_exact` says that the reader takes the texts
of this form and the empty one, and that reading and writing undo each other. So a text has one
reading, and a path one text.
-/
namespace Rulebook

namespace Path

/-- Not empty, and without the characters that divide and mark segments. -/
def IsName (name : List Char) : Prop :=
  name ≠ [] ∧ '.' ∉ name ∧ '[' ∉ name ∧ ']' ∉ name

/-- A name, perhaps with one mark behind it. -/
inductive IsPiece : List Char → Prop where
  | plain {name : List Char} : IsName name → IsPiece name
  | marked {name : List Char} : IsName name → IsPiece (name ++ ['[', '*', ']'])

/-- One piece or more, with points between them. -/
inductive IsWritten : List Char → Prop where
  | single {piece : List Char} : IsPiece piece → IsWritten piece
  | more {piece rest : List Char} : IsPiece piece → IsWritten rest →
      IsWritten (piece ++ '.' :: rest)

end Path

/-- The field of the segment can be written. -/
def Segment.IsNamed (segment : Segment) : Prop := Path.IsName segment.field.toList

namespace Path

variable {name piece cs : List Char} {pieces : List (List Char)} {segment : Segment} {path : Path}
  {position : Nat} {text : String}

theorem pieces_eq_splitOn (cs : List Char) : Path.pieces cs = cs.splitOn '.' := by
  induction cs with
  | nil => rfl
  | cons c rest ih =>
    rw [Path.pieces, ih, List.splitOn_eq_splitOnP, List.splitOn_eq_splitOnP,
      List.splitOnP_cons_eq_if_modifyHead]
    cases hrest : rest.splitOnP (· == '.') with
    | nil => exact absurd hrest (List.splitOnP_ne_nil _ _)
    | cons first others => simp

theorem not_mem_of_mem_splitOn {separator : Char} (h : piece ∈ cs.splitOn separator) :
    separator ∉ piece := by
  induction cs generalizing piece with
  | nil =>
    rw [List.splitOn_nil] at h
    rw [List.mem_singleton.mp h]
    exact List.not_mem_nil
  | cons c rest ih =>
    rw [List.splitOn_cons_eq_if_modifyHead] at h
    split at h
    · rcases List.mem_cons.mp h with rfl | h
      · exact List.not_mem_nil
      · exact ih h
    · next hc =>
      obtain ⟨first, others, hrest⟩ :=
        List.exists_cons_of_ne_nil (List.splitOn_ne_nil separator rest)
      rw [hrest] at ih h
      rcases List.mem_cons.mp h with rfl | h
      · have hne : separator ≠ c := fun heq => hc (beq_iff_eq.mpr heq.symm)
        exact List.not_mem_cons_of_ne_of_not_mem hne (ih List.mem_cons_self)
      · exact ih (List.mem_cons_of_mem _ h)

theorem not_mem_of_mem_pieces (h : piece ∈ Path.pieces cs) : '.' ∉ piece := by
  rw [pieces_eq_splitOn] at h
  exact not_mem_of_mem_splitOn h

theorem IsPiece.not_mem (h : IsPiece piece) : '.' ∉ piece := by
  cases h with
  | plain hname => exact hname.2.1
  | marked hname => simp [hname.2.1]

theorem IsPiece.ne_nil (h : IsPiece piece) : piece ≠ [] := by
  cases h with
  | plain hname => exact hname.1
  | marked hname => simp

theorem isPiece_segmentChars (h : segment.IsNamed) : IsPiece (segmentChars segment) := by
  unfold segmentChars
  split
  · exact .marked h
  · rw [List.append_nil]
    exact .plain h

theorem IsPiece.exists_segment (h : IsPiece piece) :
    ∃ segment : Segment, segment.IsNamed ∧ segmentChars segment = piece := by
  cases h with
  | plain hname =>
    exact ⟨⟨String.ofList piece, false⟩, by simpa [Segment.IsNamed] using hname,
      by simp [segmentChars]⟩
  | @marked name hname =>
    exact ⟨⟨String.ofList name, true⟩, by simpa [Segment.IsNamed] using hname,
      by simp [segmentChars, mark]⟩

theorem unmarked?_append_mark (name : List Char) : unmarked? (name ++ mark) = some name := by
  simp [unmarked?]

theorem unmarked?_of_not_mem (h : ']' ∉ name) : unmarked? name = none := by
  unfold unmarked?
  rw [if_neg]
  intro hsuffix
  exact h ((List.isSuffixOf_iff_suffix.mp hsuffix).subset (by simp [mark]))

theorem eq_append_of_unmarked? (h : unmarked? piece = some name) : piece = name ++ mark := by
  unfold unmarked? at h
  split at h
  · next hsuffix =>
    obtain ⟨first, rfl⟩ := List.isSuffixOf_iff_suffix.mp hsuffix
    cases h
    simp
  · cases h

/-- The checks that a name goes through let a segment of that name pass. -/
theorem checked_eq_ok_iff {each : Bool} {empty stray : PathFault} :
    (if name = [] then .error empty
      else if name.contains '[' ∨ name.contains ']' then .error stray
      else .ok ⟨String.ofList name, each⟩ : Except PathFault Segment) = .ok segment ↔
      (name ≠ [] ∧ '[' ∉ name ∧ ']' ∉ name) ∧ ⟨String.ofList name, each⟩ = segment := by
  by_cases hname : name = []
  · simp [hname]
  · by_cases hstray : '[' ∈ name ∨ ']' ∈ name
    · have hnot : ¬ ('[' ∉ name ∧ ']' ∉ name) := fun ⟨hopen, hclose⟩ => hstray.elim hopen hclose
      simp [hname, hstray, hnot]
    · simp [hname, not_or.mp hstray]

/-- A segment is read from what it is written as, and from nothing else. -/
theorem segment_eq_ok_iff (hpiece : '.' ∉ piece) :
    Path.segment position piece = .ok segment ↔
      segment.IsNamed ∧ segmentChars segment = piece := by
  constructor
  · intro h
    unfold Path.segment at h
    cases hmark : unmarked? piece with
    | some name =>
      obtain rfl := eq_append_of_unmarked? hmark
      rw [hmark] at h
      obtain ⟨⟨hne, hopen, hclose⟩, rfl⟩ := checked_eq_ok_iff.mp h
      have hpoint : '.' ∉ name := fun hmem => hpiece (List.mem_append_left _ hmem)
      exact ⟨by simpa [Segment.IsNamed, IsName] using ⟨hne, hpoint, hopen, hclose⟩,
        by simp [segmentChars]⟩
    | none =>
      rw [hmark] at h
      obtain ⟨⟨hne, hopen, hclose⟩, rfl⟩ := checked_eq_ok_iff.mp h
      exact ⟨by simpa [Segment.IsNamed, IsName] using ⟨hne, hpiece, hopen, hclose⟩,
        by simp [segmentChars]⟩
  · rintro ⟨⟨hne, -, hopen, hclose⟩, rfl⟩
    have hsegment : ∀ each, (⟨String.ofList segment.field.toList, each⟩ : Segment) =
        ⟨segment.field, each⟩ := fun each => by rw [String.ofList_toList]
    unfold Path.segment segmentChars
    cases heach : segment.each with
    | true =>
      rw [if_pos rfl, unmarked?_append_mark]
      exact checked_eq_ok_iff.mpr ⟨⟨hne, hopen, hclose⟩, by rw [hsegment, ← heach]⟩
    | false =>
      rw [if_neg Bool.false_ne_true, List.append_nil, unmarked?_of_not_mem hclose]
      exact checked_eq_ok_iff.mpr ⟨⟨hne, hopen, hclose⟩, by rw [hsegment, ← heach]⟩

theorem segmentsFrom_eq_ok_iff (hpieces : ∀ piece ∈ pieces, '.' ∉ piece) :
    segmentsFrom position pieces = .ok path ↔
      (∀ segment ∈ path, segment.IsNamed) ∧ path.map segmentChars = pieces := by
  induction pieces generalizing position path with
  | nil =>
    rw [List.map_eq_nil_iff]
    constructor
    · rintro ⟨⟩
      exact ⟨List.forall_mem_nil _, rfl⟩
    · rintro ⟨-, rfl⟩
      rfl
  | cons piece rest ih =>
    obtain ⟨hpiece, hrest⟩ := List.forall_mem_cons.mp hpieces
    rw [segmentsFrom]
    constructor
    · intro h
      obtain ⟨first, hfirst, h⟩ := exists_of_bind_ok h
      obtain ⟨others, hothers, h⟩ := exists_of_bind_ok h
      cases h
      obtain ⟨hnamed, hfirst⟩ := (segment_eq_ok_iff hpiece).mp hfirst
      obtain ⟨hall, hothers⟩ := (ih hrest).mp hothers
      exact ⟨List.forall_mem_cons.mpr ⟨hnamed, hall⟩, by rw [List.map_cons, hfirst, hothers]⟩
    · rintro ⟨hnamed, hpath⟩
      obtain ⟨first, others, rfl, hfirst, hothers⟩ := List.map_eq_cons_iff.mp hpath
      obtain ⟨hnamed, hall⟩ := List.forall_mem_cons.mp hnamed
      rw [(segment_eq_ok_iff hpiece).mpr ⟨hnamed, hfirst⟩, (ih hrest).mpr ⟨hall, hothers⟩]
      rfl

theorem chars_eq_intercalate (path : Path) :
    chars path = ['.'].intercalate (path.map segmentChars) := by
  induction path with
  | nil => rfl
  | cons segment rest ih =>
    cases rest with
    | nil => simp [chars]
    | cons second others => simp [chars, ih]

theorem chars_ne_nil (hpath : path ≠ []) (hnamed : ∀ segment ∈ path, segment.IsNamed) :
    chars path ≠ [] := by
  obtain ⟨segment, rest, rfl⟩ := List.exists_cons_of_ne_nil hpath
  have hfirst := (isPiece_segmentChars (hnamed segment List.mem_cons_self)).ne_nil
  cases rest with
  | nil => simpa [chars] using hfirst
  | cons second others => simp [chars]

/-- The text of a path is split into its segments. -/
theorem splitOn_chars (hpath : path ≠ []) (hnamed : ∀ segment ∈ path, segment.IsNamed) :
    (chars path).splitOn '.' = path.map segmentChars := by
  rw [chars_eq_intercalate, List.splitOn_intercalate]
  · simp only [List.forall_mem_map]
    exact fun segment hsegment => (isPiece_segmentChars (hnamed segment hsegment)).not_mem
  · simpa using hpath

/-- A path is read from its text, and from no other. -/
theorem parse_eq_ok_iff :
    parse text = .ok path ↔ (∀ segment ∈ path, segment.IsNamed) ∧ path.text = text := by
  rw [Path.text, ← String.toList_inj, String.toList_ofList]
  unfold parse
  split
  · next hempty =>
    rw [hempty]
    constructor
    · rintro ⟨⟩
      exact ⟨List.forall_mem_nil _, rfl⟩
    · rintro ⟨hnamed, hchars⟩
      by_cases hpath : path = []
      · rw [hpath]
      · exact absurd hchars (chars_ne_nil hpath hnamed)
  · next cs hcs =>
    rw [segmentsFrom_eq_ok_iff fun _ => not_mem_of_mem_pieces, pieces_eq_splitOn]
    refine and_congr_right fun hnamed => ⟨fun h => ?_, fun h => ?_⟩
    · rw [chars_eq_intercalate, h, List.intercalate_splitOn]
    · have hpath : path ≠ [] := by
        rintro rfl
        exact hcs h.symm
      rw [← h, splitOn_chars hpath hnamed]

theorem isWritten_iff :
    IsWritten cs ↔ ∃ path : Path, path ≠ [] ∧ (∀ segment ∈ path, segment.IsNamed) ∧
      chars path = cs := by
  constructor
  · intro h
    induction h with
    | single hpiece =>
      obtain ⟨segment, hnamed, rfl⟩ := hpiece.exists_segment
      exact ⟨[segment], List.cons_ne_nil _ _, List.forall_mem_singleton.mpr hnamed, rfl⟩
    | more hpiece _ ih =>
      obtain ⟨segment, hnamed, rfl⟩ := hpiece.exists_segment
      obtain ⟨rest, hrest, hall, rfl⟩ := ih
      obtain ⟨second, others, rfl⟩ := List.exists_cons_of_ne_nil hrest
      exact ⟨segment :: second :: others, List.cons_ne_nil _ _,
        List.forall_mem_cons.mpr ⟨hnamed, hall⟩, rfl⟩
  · rintro ⟨path, hpath, hnamed, rfl⟩
    induction path with
    | nil => exact absurd rfl hpath
    | cons segment rest ih =>
      obtain ⟨hsegment, hrest⟩ := List.forall_mem_cons.mp hnamed
      cases rest with
      | nil => exact .single (isPiece_segmentChars hsegment)
      | cons second others =>
        exact .more (isPiece_segmentChars hsegment) (ih (List.cons_ne_nil _ _) hrest)

/-- The texts of paths are the empty one and those of the written form. A path that is read has the
text that it was read from, and a path with fields that can be written is read back from its text. -/
theorem parse_exact :
    (∀ text, (∃ path, parse text = .ok path) ↔ text = "" ∨ IsWritten text.toList) ∧
      (∀ text path, parse text = .ok path → path.text = text) ∧
      ∀ path : Path, (∀ segment ∈ path, segment.IsNamed) → parse path.text = .ok path := by
  refine ⟨fun text => ?_, fun text path h => (parse_eq_ok_iff.mp h).2,
    fun path hnamed => parse_eq_ok_iff.mpr ⟨hnamed, rfl⟩⟩
  rw [isWritten_iff]
  constructor
  · rintro ⟨path, hpath⟩
    obtain ⟨hnamed, rfl⟩ := parse_eq_ok_iff.mp hpath
    by_cases hempty : path = []
    · rw [hempty]
      exact .inl rfl
    · exact .inr ⟨path, hempty, hnamed, String.toList_ofList.symm⟩
  · rintro (rfl | ⟨path, -, hnamed, hchars⟩)
    · exact ⟨[], rfl⟩
    · exact ⟨path, parse_eq_ok_iff.mpr ⟨hnamed, by rw [Path.text, hchars, String.ofList_toList]⟩⟩

end Path
end Rulebook
