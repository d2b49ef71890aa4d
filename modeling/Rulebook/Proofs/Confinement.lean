import Rulebook.RuleDirectory
import Rulebook.Proofs.PathText

/-!
# Rulesets stay in their directory

A URI is judged by its parts, but the path of its file is made of its text, with an ending behind
it. The ending joins the last part, or becomes a part of its own if a slash stands before it, and no
other part changes. So the path leads from the directory through names only (`pathFor_confined`),
and the file that is read lies where it leads.
-/
namespace Rulebook

namespace PathPart

variable {path rest text ending : List Char} {part : PathPart} {parts : List PathPart}

/-- A name that a file or a directory can have in the place where it lies. -/
def IsOrdinary (part : PathPart) : Prop :=
  ∃ text, part = name text ∧ text ≠ [] ∧ text ≠ ['.'] ∧ text ≠ ['.', '.'] ∧ '/' ∉ text

theorem all_isName_iff :
    parts.all isName = true ↔ root ∉ parts ∧ here ∉ parts ∧ up ∉ parts := by
  rw [List.all_eq_true]
  constructor
  · intro h
    refine ⟨fun hmem => ?_, fun hmem => ?_, fun hmem => ?_⟩ <;> cases h _ hmem
  · rintro ⟨hroot, hhere, hup⟩ part hpart
    cases part with
    | root => exact absurd hpart hroot
    | here => exact absurd hpart hhere
    | up => exact absurd hpart hup
    | name text => rfl

theorem ofText?_of_long (h : 2 < text.length) : ofText? text = some (name text) := by
  unfold ofText?
  split
  · cases h
  · simp at h
  · simp at h
  · rfl

theorem isOrdinary_of_mem_between (h : part ∈ between path) (hname : part.isName = true) :
    part.IsOrdinary := by
  obtain ⟨text, htext, hpart⟩ := List.mem_filterMap.mp h
  have hslash : '/' ∉ text := Path.not_mem_of_mem_splitOn htext
  unfold ofText? at hpart
  split at hpart
  · cases hpart
  · cases hpart
  · cases hpart
    cases hname
  · next hnil hhere hup =>
    cases hpart
    exact ⟨text, rfl, hnil, hhere, hup, hslash⟩

theorem root_not_mem_between : root ∉ between path := by
  intro h
  obtain ⟨text, -, hpart⟩ := List.mem_filterMap.mp h
  unfold ofText? at hpart
  split at hpart <;> cases hpart

theorem between_append_slash (path rest : List Char) :
    between (path ++ '/' :: rest) = between path ++ between rest := by
  rw [between, List.splitOn_append_cons_self, List.filterMap_append]
  rfl

/-- What comes first is seen from two characters, the second of which may be the end. -/
theorem leading_cons (c : Char) (rest : List Char) :
    leading (c :: rest) =
      if c = '/' then [root]
      else if c = '.' ∧ rest.head?.getD '/' = '/' then [here]
      else [] := by
  by_cases hroot : c = '/'
  · rw [hroot]
    rfl
  rw [if_neg hroot]
  by_cases hhere : c = '.' ∧ rest.head?.getD '/' = '/'
  · rw [if_pos hhere]
    obtain ⟨rfl, hrest⟩ := hhere
    cases rest with
    | nil => rfl
    | cons c' rest =>
      obtain rfl : c' = '/' := hrest
      rfl
  · rw [if_neg hhere]
    unfold leading
    split
    · next heq =>
      cases heq
      exact absurd rfl hroot
    · next heq =>
      cases heq
      exact absurd ⟨rfl, rfl⟩ hhere
    · next heq =>
      cases heq
      exact absurd ⟨rfl, rfl⟩ hhere
    · rfl

theorem leading_eq_nil_iff {c : Char} :
    leading (c :: rest) = [] ↔ c ≠ '/' ∧ ¬ (c = '.' ∧ rest.head?.getD '/' = '/') := by
  rw [leading_cons]
  split
  · simp [*]
  · split <;> simp [*]

theorem leading_append_slash (h : path ≠ []) (rest : List Char) :
    leading (path ++ '/' :: rest) = leading path := by
  obtain ⟨c, others, rfl⟩ := List.exists_cons_of_ne_nil h
  rw [List.cons_append, leading_cons, leading_cons]
  cases others <;> rfl

theorem leading_append (h : path ≠ []) (hleading : leading path = []) (rest : List Char) :
    leading (path ++ rest) = [] := by
  obtain ⟨c, others, rfl⟩ := List.exists_cons_of_ne_nil h
  obtain ⟨hroot, hhere⟩ := leading_eq_nil_iff.mp hleading
  refine leading_eq_nil_iff.mpr ⟨hroot, fun ⟨hc, hslash⟩ => hhere ⟨hc, ?_⟩⟩
  cases others with
  | nil => rfl
  | cons c' others => exact hslash

theorem root_mem_iff : root ∈ ofPath path ↔ path.head? = some '/' := by
  rw [ofPath, List.mem_append, or_iff_left root_not_mem_between]
  cases path with
  | nil => decide
  | cons c rest =>
    rw [leading_cons]
    split
    · simp [*]
    · split <;> simp [*]

/-- Where all parts are names nothing stands before them. -/
theorem leading_eq_nil_of_names (h : (ofPath path).all isName = true) : leading path = [] := by
  have hnames : (leading path).all isName = true := by
    rw [ofPath, List.all_append, Bool.and_eq_true] at h
    exact h.1
  cases path with
  | nil => rfl
  | cons c rest =>
    rw [leading_cons] at hnames ⊢
    split at hnames
    · cases hnames
    · split at hnames
      · cases hnames
      · simp [*]

theorem ofPath_append_slash (path rest : List Char) :
    ofPath (path ++ '/' :: rest) = ofPath (path ++ ['/']) ++ between rest := by
  have hleading : leading (path ++ '/' :: rest) = leading (path ++ ['/']) := by
    cases path with
    | nil => rfl
    | cons c others =>
      rw [leading_append_slash (List.cons_ne_nil _ _), leading_append_slash (List.cons_ne_nil _ _)]
  have hbetween : between (path ++ ['/']) = between path := by
    rw [between_append_slash]
    exact List.append_nil _
  rw [ofPath, ofPath, hleading, hbetween, between_append_slash, List.append_assoc]

/-- A slash at the end adds no part. -/
theorem ofPath_append_last_slash (h : path ≠ []) : ofPath (path ++ ['/']) = ofPath path := by
  rw [ofPath, leading_append_slash h, between_append_slash]
  exact congrArg (leading path ++ ·) (List.append_nil _)

/-- An ending without a slash joins what stands behind the last slash. -/
theorem exists_splitOn_append (path : List Char) (hending : '/' ∉ ending) :
    ∃ front last, path.splitOn '/' = front ++ [last] ∧
      (path ++ ending).splitOn '/' = front ++ [last ++ ending] := by
  induction path with
  | nil => exact ⟨[], [], List.splitOn_nil '/', List.splitOn_eq_singleton hending⟩
  | cons c path ih =>
    obtain ⟨front, last, hpath, happended⟩ := ih
    rw [List.cons_append, List.splitOn_cons_eq_if_modifyHead, List.splitOn_cons_eq_if_modifyHead,
      hpath, happended]
    split
    · exact ⟨[] :: front, last, rfl, rfl⟩
    -- The character goes to the first piece, which may be the last one as well.
    · cases front with
      | nil => exact ⟨[], c :: last, rfl, rfl⟩
      | cons first others => exact ⟨(c :: first) :: others, last, rfl, rfl⟩

/-- A long ending makes a name of the last part, and leaves the parts before it as they are. -/
theorem exists_between_append (path : List Char) (hending : '/' ∉ ending)
    (hlong : 2 < ending.length) :
    ∃ inner last, inner ⊆ between path ∧
      between (path ++ ending) = inner ++ [name (last ++ ending)] := by
  obtain ⟨front, last, hpath, happended⟩ := exists_splitOn_append path hending
  refine ⟨front.filterMap ofText?, last, ?_, ?_⟩
  · rw [between, hpath, List.filterMap_append]
    exact List.subset_append_left _ _
  · have hname : ofText? (last ++ ending) = some (name (last ++ ending)) :=
      ofText?_of_long (by rw [List.length_append]; omega)
    rw [between, happended, List.filterMap_append, List.filterMap_cons_some hname]
    rfl

end PathPart

namespace RuleDirectory

variable {directory : RuleDirectory} {uri path : String} {rest : List Char}

open PathPart (ofPath between leading)

/-- A path that begins with a name goes on from the directory. -/
theorem ofPath_join (base : List Char) (hleading : leading rest = []) :
    ofPath (join base rest) = ofPath base ++ between rest := by
  have hroot : rest.head? ≠ some '/' := by
    intro hhead
    obtain ⟨others, rfl⟩ := List.head?_eq_some_iff.mp hhead
    cases hleading
  unfold join
  rw [if_neg hroot]
  -- The directory is empty, ends with a slash, or needs one.
  split
  · next hbase =>
    rw [List.getLast?_eq_none_iff.mp hbase, List.nil_append, ofPath, hleading]
    rfl
  · next hbase =>
    obtain ⟨front, rfl⟩ := List.getLast?_eq_some_iff.mp hbase
    rw [List.append_assoc]
    exact PathPart.ofPath_append_slash front rest
  · next hbase =>
    have hne : base ≠ [] := by
      rintro rfl
      cases hbase
    rw [PathPart.ofPath_append_slash, PathPart.ofPath_append_last_slash hne]

theorem isConfined_iff :
    isConfined uri = true ↔ uri ≠ "" ∧ (ofPath uri.toList).all PathPart.isName = true := by
  simp [isConfined]

theorem pathFor_eq_ok_iff :
    directory.pathFor uri = .ok path ↔ isConfined uri = true ∧
      String.ofList (join directory.path.toList (uri ++ ".json").toList) = path := by
  unfold pathFor
  split <;> simp [*]

theorem pathFor_eq_error_iff :
    directory.pathFor uri = .error (.store (.badUri uri)) ↔ ¬ isConfined uri = true := by
  unfold pathFor
  split <;> simp [*]

/-- The path has the parts of the directory, and behind them what stands between the slashes of the
URI with its ending. -/
theorem ofPath_pathFor (h : directory.pathFor uri = .ok path) :
    ofPath path.toList = ofPath directory.path.toList ++ between (uri ++ ".json").toList := by
  obtain ⟨hconfined, rfl⟩ := pathFor_eq_ok_iff.mp h
  obtain ⟨hne, hnames⟩ := isConfined_iff.mp hconfined
  have hleading : leading (uri ++ ".json").toList = [] := by
    rw [String.toList_append]
    exact PathPart.leading_append (mt String.toList_eq_nil_iff.mp hne)
      (PathPart.leading_eq_nil_of_names hnames) _
  rw [String.toList_ofList, ofPath_join _ hleading]

/-- The path of a URI leads from the directory through ordinary names to one that ends with `.json`.
A URI has no path if it is empty, has a root, starts with `.` or goes up somewhere, and only
then. -/
theorem pathFor_confined (directory : RuleDirectory) (uri : String) :
    (∀ path, directory.pathFor uri = .ok path →
      ∃ inner file, ofPath path.toList = ofPath directory.path.toList ++ inner ++ [.name file] ∧
        (∀ part ∈ inner ++ [.name file], part.IsOrdinary) ∧ ".json".toList <:+ file) ∧
    (directory.pathFor uri = .error (.store (.badUri uri)) ↔
      uri = "" ∨ uri.toList.head? = some '/' ∨ .here ∈ ofPath uri.toList ∨
        .up ∈ ofPath uri.toList) := by
  constructor
  · intro path hpath
    obtain ⟨hconfined, -⟩ := pathFor_eq_ok_iff.mp hpath
    obtain ⟨-, hnames⟩ := isConfined_iff.mp hconfined
    have hending : '/' ∉ ".json".toList := by decide
    obtain ⟨inner, last, hinner, hparts⟩ :=
      PathPart.exists_between_append uri.toList hending (by decide)
    refine ⟨inner, last ++ ".json".toList, ?_, ?_, List.suffix_append _ _⟩
    · rw [ofPath_pathFor hpath, String.toList_append, hparts, List.append_assoc]
    · intro part hpart
      have hmem : part ∈ between (uri.toList ++ ".json".toList) := hparts ▸ hpart
      refine PathPart.isOrdinary_of_mem_between hmem ?_
      rcases List.mem_append.mp hpart with hpart | hpart
      · exact List.all_eq_true.mp hnames part (List.mem_append_right _ (hinner hpart))
      · rw [List.mem_singleton.mp hpart]
        rfl
  · rw [pathFor_eq_error_iff, isConfined_iff, PathPart.all_isName_iff, PathPart.root_mem_iff]
    tauto

/-- Behind a last slash and point the ending is a file name of its own. -/
theorem folder_uri_confined :
    pathFor ⟨"rules", []⟩ "sub//x/." = .ok "rules/sub//x/..json" ∧
      (∃ inner file, ofPath "rules/sub//x/..json".toList =
          ofPath "rules".toList ++ inner ++ [.name file] ∧
        (∀ part ∈ inner ++ [.name file], part.IsOrdinary) ∧ ".json".toList <:+ file) ∧
      pathFor ⟨"rules", []⟩ "sub/../x" = .error (.store (.badUri "sub/../x")) := by
  have hpath : pathFor ⟨"rules", []⟩ "sub//x/." = .ok "rules/sub//x/..json" := rfl
  have hup : .up ∈ ofPath "sub/../x".toList := by decide
  exact ⟨hpath, (pathFor_confined ⟨"rules", []⟩ "sub//x/.").1 "rules/sub//x/..json" hpath,
    (pathFor_confined ⟨"rules", []⟩ "sub/../x").2.mpr (.inr (.inr (.inr hup)))⟩

end RuleDirectory
end Rulebook
