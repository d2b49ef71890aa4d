import Rulebook.Pattern.Language
import Rulebook.Proofs.PatternGrammar
import Rulebook.Proofs.PatternReading

/-!
# The grammar of the patterns at hand

The reader and the matcher make a grammar, and the laws of grammars hold of it. What is read inside
a group, with closing text behind, is traced back to what is read alone.
-/
namespace Rulebook.Pattern

variable {cs : List Char} {n : Nat} {piece : Piece} {text : Array Char} {i j : Nat}

def Piece.group (piece : Piece) : Piece := ⟨.group none piece.pattern, piece.depth + 1, true⟩

def grammar : PatternGrammar where
  Expression := Piece
  parse source := (parse source.toList).toOption
  fits piece := piece.limited.isOk
  refusal source :=
    match read source.toList with
    | .ok _ => ""
    | .error fault => fault.message
  occursIn piece := piece.pattern.occursIn
  Spans piece text i j := Matches text.toList.toArray piece.pattern i j
  textStart := .leaf (.look .textStart)
  textEnd := .leaf (.look .textEnd)
  group := .group
  sequence := .sequence

theorem grammar_language : grammar.language = language := by
  unfold PatternGrammar.language language
  congr 1
  funext source
  simp only [grammar, read]
  cases parse source.toList with
  | error fault => rfl
  | ok piece =>
    simp only [Except.toOption, bind, Except.bind, Piece.limited]
    by_cases hdeep : 250 < piece.depth
    · simp only [if_pos hdeep]
      rfl
    · by_cases hfits : piece.pattern.plan.fits = true
      · simp only [if_neg hdeep, hfits]
        rfl
      · simp only [if_neg hdeep, hfits]
        rfl

/-! ### Matches -/

theorem size_toArray (text : String) : text.toList.toArray.size = text.length := by
  rw [List.size_toArray, String.length_toList]

theorem matches_foldr_iff {text : String} (pieces : List Piece) :
    Matches text.toList.toArray (pieces.foldr (fun q p => .seq q.pattern p) .nothing) i j ↔
      grammar.SpansInTurn text pieces i j := by
  induction pieces generalizing i with
  | nil =>
    constructor
    · rintro ⟨hi⟩
      exact ⟨rfl, size_toArray text ▸ hi⟩
    · rintro ⟨rfl, hi⟩
      exact .nothing (size_toArray text ▸ hi)
  | cons piece pieces ih =>
    constructor
    · rintro (_ | _ | _ | ⟨hpiece, hrest⟩)
      exact ⟨_, hpiece, ih.mp hrest⟩
    · rintro ⟨k, hpiece, hrest⟩
      exact .seq hpiece (ih.mpr hrest)

theorem matches_sequence_iff {text : String} {pieces : List Piece} :
    Matches text.toList.toArray (Piece.sequence pieces).pattern i j ↔
      grammar.SpansInTurn text pieces i j := by
  match pieces with
  | [] => exact matches_foldr_iff []
  | [piece] =>
    constructor
    · exact fun hpiece => ⟨j, hpiece, rfl, size_toArray text ▸ hpiece.bounds.2⟩
    · rintro ⟨_, hpiece, rfl, -⟩
      exact hpiece
  | piece :: second :: rest => exact matches_foldr_iff (piece :: second :: rest)

theorem matches_look_iff {condition : Look} :
    Matches text (.look condition) i j ↔
      i ≤ text.size ∧ condition.holds text i = true ∧ i = j := by
  constructor
  · rintro (_ | _ | ⟨hi, hholds⟩)
    exact ⟨hi, hholds, rfl⟩
  · rintro ⟨hi, hholds, rfl⟩
    exact .look hi hholds

/-! ### Reading inside a group -/

namespace State

variable {s s' : State} {base : List Level} {level : Level}

def initial : State := ⟨{}, [], 0, .start {} none, []⟩

theorem finish_ok_iff : s.finish = .ok piece ↔ s.outer = [] ∧ s.level.close = piece := by
  unfold finish
  split
  · next houter => simp [houter]
  · next houter => simp [houter]

/-- A group that is opened around a text is still open at its end. -/
theorem result_under_of_ok (s : State) (cs : List Char) (h : s.result cs = .ok piece)
    (hbase : base ≠ []) : (s.under base).result cs = .error .unclosedGroup := by
  cases hskip : s.flags.skip cs with
  | nil =>
    rw [result_nil (s := s.under base) hskip]
    exact finish_of_outer (under_outer hbase)
  | cons c more =>
    rw [result_cons hskip] at h
    obtain ⟨⟨token, left⟩, hnext, h⟩ := exists_of_bind_ok h
    obtain ⟨s', htake, h⟩ := exists_of_bind_ok h
    have hinner : token ≠ .close ∨ s.outer ≠ [] := by
      by_contra hclosed
      obtain ⟨hclose, houter⟩ := not_or.mp hclosed
      rw [not_not] at hclose houter
      subst hclose
      rw [take_close houter] at htake
      cases htake
    have hmore := length_of_skip hskip
    have hleft : left.length ≤ more.length := (Token.next_leaves _ hnext).length_le
    have htake' : (s.under base).take token = .ok (s'.under base) := by
      rw [take_under hinner, htake]
      rfl
    rw [result_step (s := s.under base) hskip hnext htake']
    exact result_under_of_ok s' left h hbase
termination_by cs.length

theorem result_closed (h : s.take .close = .ok s') :
    s.result (closing n) = s'.result (List.replicate n '$') :=
  result_step (skip_of_visible rfl (by decide)) rfl h

theorem result_unopened (h : s.outer = []) : s.result (closing n) = .error .unopenedGroup := by
  have hskip : s.flags.skip (closing n) = ')' :: List.replicate n '$' :=
    skip_of_visible rfl (by decide)
  rw [result_cons hskip]
  simp only [Token.next, bind, Except.bind, take_close h]

theorem under_nil : s.under [] = s := by
  simp [under]

end State

open State

/-- What becomes of a text that can be read when closing text is put behind it. -/
inductive Ending (cs : List Char) (piece : Piece) : Prop
  | plain (hbehind : ∀ n, parse (cs ++ closing n) = .error .unopenedGroup)
    (hinside : ∀ n level, ∃ names captures, (initial.under [level]).result (cs ++ closing n) =
      (⟨{}, names, captures, level.add piece.group, []⟩ : State).result (List.replicate n '$'))
  | comment (hbehind : ∀ n, parse (cs ++ closing n) = .ok piece)
    (hinside : ∀ n level,
      (initial.under [level]).result (cs ++ closing n) = .error .unclosedGroup)

theorem ending (h : parse cs = .ok piece) : Ending cs piece ∧ piece.pattern.Counted := by
  have hcounted : initial.Counted := by
    intro level hlevel
    cases List.mem_singleton.mp hlevel
    exact .start
  have hresult : ∀ cs, parse cs = (initial.under []).result cs := fun cs => rfl
  rw [hresult, under_nil] at h
  cases initial.reading cs with
  | fails hfails => exact absurd h (hfails piece)
  | leaves hleaves => cases hleaves.symm.trans h
  | comments s hground hcounted' halone hinside =>
    rw [halone] at h
    obtain ⟨houter, rfl⟩ := finish_ok_iff.mp h
    refine ⟨.comment (fun n => ?_) fun n level => ?_, ?_⟩
    · rw [hresult, hinside, under_nil, h]
    · rw [hinside, finish_of_outer (under_outer (List.cons_ne_nil _ _))]
    · exact (List.forall_mem_cons.mp (hcounted' hcounted)).1.close
  | closes s hground hcounted' halone hinside =>
    rw [halone] at h
    obtain ⟨houter, rfl⟩ := finish_ok_iff.mp h
    refine ⟨.plain (fun n => ?_) fun n level => ?_, ?_⟩
    · rw [hresult, hinside, under_nil, result_unopened houter]
    · rw [hinside]
      obtain ⟨flags, names, captures, ⟨levelFlags, number, branches, pieces⟩, outer⟩ := s
      cases houter
      cases hground
      exact ⟨names, captures, result_closed rfl⟩
    · exact (List.forall_mem_cons.mp (hcounted' hcounted)).1.close

/-- The level around a group: the start of the text has been read. -/
def wrapper : Level := (Level.start {} none).add (.leaf (.look .textStart))

theorem parse_opened (cs : List Char) :
    parse ('(' :: '?' :: ':' :: cs) = (initial.under [.start {} none]).result cs := by
  have hopen : initial.take (.group {}) = .ok (initial.under [.start {} none]) := rfl
  exact result_step rfl rfl hopen

theorem parse_wrapped (cs : List Char) :
    parse ('^' :: '(' :: '?' :: ':' :: cs) = (initial.under [wrapper]).result cs := by
  have hcaret : parse ('^' :: '(' :: '?' :: ':' :: cs) =
      (initial.add (.leaf (.look .textStart))).result ('(' :: '?' :: ':' :: cs) :=
    result_step rfl rfl rfl
  have hopen : (initial.add (.leaf (.look .textStart))).take (.group {}) =
      .ok (initial.under [wrapper]) := rfl
  rw [hcaret]
  exact result_step rfl rfl hopen

theorem parse_group (h : parse cs = .ok piece) (hcomment : parse (cs ++ closing 0) ≠ .ok piece) :
    parse ('(' :: '?' :: ':' :: (cs ++ closing 0)) = .ok piece.group := by
  cases (ending h).1 with
  | comment hbehind _ => exact absurd (hbehind 0) hcomment
  | plain _ hinside =>
    obtain ⟨names, captures, hgroup⟩ := hinside 0 (.start {} none)
    rw [parse_opened, hgroup, List.replicate_zero, result_nil rfl]
    rfl

theorem parse_sequence (h : parse cs = .ok piece)
    (hgroup : parse ('(' :: '?' :: ':' :: (cs ++ closing 0)) = .ok piece.group) :
    parse ('^' :: '(' :: '?' :: ':' :: (cs ++ closing 1)) =
      .ok (.sequence [.leaf (.look .textStart), piece.group, .leaf (.look .textEnd)]) := by
  cases (ending h).1 with
  | comment _ hinside =>
    rw [parse_opened, hinside] at hgroup
    cases hgroup
  | plain _ hinside =>
    obtain ⟨names, captures, hwhole⟩ := hinside 1 wrapper
    rw [parse_wrapped, hwhole, List.replicate_one, result_dollar, result_nil rfl]
    rfl

theorem parse_unclosed (h : parse cs = .ok piece) :
    parse ('^' :: '(' :: '?' :: ':' :: cs) = .error .unclosedGroup :=
  (parse_wrapped cs).trans (result_under_of_ok initial cs h (List.cons_ne_nil _ _))

theorem parse_comment (h : parse cs = .ok piece) (hcomment : ∃ p, parse (cs ++ closing 0) = .ok p) :
    parse ('^' :: '(' :: '?' :: ':' :: (cs ++ closing 1)) = .error .unclosedGroup := by
  cases (ending h).1 with
  | plain hbehind _ =>
    obtain ⟨p, hp⟩ := hcomment
    cases (hbehind 0).symm.trans hp
  | comment _ hinside => exact (parse_wrapped _).trans (hinside 1 wrapper)

/-! ### The laws -/

theorem parse_eq_some_iff {source : String} :
    grammar.parse source = some piece ↔ parse source.toList = .ok piece := by
  change (parse source.toList).toOption = some piece ↔ _
  cases parse source.toList <;> simp [Except.toOption]

theorem toList_inParentheses (source : String) :
    (PatternGrammar.inParentheses source).toList =
      '(' :: '?' :: ':' :: (source.toList ++ closing 0) := by
  rw [PatternGrammar.inParentheses, String.toList_append, String.toList_append, List.append_assoc]
  rfl

theorem endsInComment_iff {source : String} :
    grammar.EndsInComment source ↔ ∃ p, parse (source.toList ++ closing 0) = .ok p := by
  refine exists_congr fun p => parse_eq_some_iff.trans ?_
  rw [String.toList_append]
  rfl

theorem grammar_lawful : grammar.Lawful where
  occursIn_iff text hparse _ :=
    Pattern.occursIn_iff (ending (parse_eq_some_iff.mp hparse)).2 text
  spans_textStart := by
    intro text i j
    refine matches_look_iff.trans ?_
    rw [Look.holds, decide_eq_true_iff]
    omega
  spans_textEnd := by
    intro text i j
    refine matches_look_iff.trans ?_
    rw [Look.holds, decide_eq_true_iff, size_toArray]
    omega
  spans_group := ⟨fun | .group hmatch => hmatch, .group⟩
  spans_sequence := matches_sequence_iff
  parse_group := by
    intro source piece hparse hcomment
    have hplain : parse (source.toList ++ closing 0) ≠ .ok piece :=
      fun h => hcomment (endsInComment_iff.mpr ⟨piece, h⟩)
    refine parse_eq_some_iff.mpr ?_
    rw [toList_inParentheses]
    exact parse_group (parse_eq_some_iff.mp hparse) hplain
  parse_sequence := by
    intro source piece hparse hgroup
    have hgroup' := parse_eq_some_iff.mp hgroup
    rw [toList_inParentheses] at hgroup'
    have htext : ("^" ++ PatternGrammar.inParentheses source ++ "$").toList =
        '^' :: '(' :: '?' :: ':' :: (source.toList ++ closing 1) := by
      rw [String.toList_append, String.toList_append, toList_inParentheses]
      simp [closing]
    refine parse_eq_some_iff.mpr ?_
    rw [htext]
    exact parse_sequence (parse_eq_some_iff.mp hparse) hgroup'
  parse_unclosed := by
    intro source piece hparse
    have hunclosed := parse_unclosed (parse_eq_some_iff.mp hparse)
    change (parse ("^(?:" ++ source).toList).toOption = none
    rw [String.toList_append]
    exact congrArg Except.toOption hunclosed
  parse_comment := by
    intro source piece hparse hcomment
    have hunclosed := parse_unclosed (parse_eq_some_iff.mp hparse)
    have hwhole := parse_comment (parse_eq_some_iff.mp hparse) (endsInComment_iff.mp hcomment)
    change (parse ("^(?:" ++ source ++ ")$").toList).toOption =
      (parse ("^(?:" ++ source).toList).toOption
    rw [String.toList_append, String.toList_append, List.append_assoc]
    exact congrArg Except.toOption (hwhole.trans hunclosed.symm)

end Rulebook.Pattern
