import Rulebook.Proofs.PatternRemainders

/-!
# Bracketed classes with more text behind

A class ends with its closing bracket, and the closing text has none. So a class is read from the
text as it is, whatever is put behind it (`Bracket.read_extends`).
-/
namespace Rulebook.Pattern

open Remainder (rest extend)

variable {α β : Type} [Remainder α] [Remainder β] {cs more : List Char} {n : Nat} {flags : Flags}

/-- No closing bracket is left. -/
def Unclosed (read : α) : Prop := ']' ∉ rest read

theorem unclosed_closing (n : Nat) : Unclosed (closing n) := by
  intro h
  rcases List.mem_cons.mp h with h | h
  · cases h
  · cases List.eq_of_mem_replicate h

theorem Unclosed.of_leaves {read : α} {result : Except Fault β} {b : β} (h : Unclosed read)
    (hleaves : Leaves (rest read) result) (hb : result = .ok b) : Unclosed b :=
  fun hc => h ((hleaves b hb).subset hc)

theorem Spent.unclosed {read : α} (h : Spent read) : Unclosed read :=
  fun hc => absurd (h _ hc) (by decide)

namespace Bracket

theorem dashes_suffix (fuel : Nat) (b : Bracket) : (dashes flags fuel b cs).2 <:+ cs := by
  induction fuel generalizing b cs with
  | zero => exact List.suffix_refl _
  | succ fuel ih =>
    unfold dashes
    split
    · exact (ih _).trans ((skip_suffix flags _).trans (List.suffix_cons _ _))
    · exact List.suffix_refl _

theorem dashes_append {fuel fuel' : Nat} {b : Bracket} (hfuel : cs.length < fuel)
    (hfuel' : (cs ++ closing n).length < fuel') :
    dashes flags fuel' b (cs ++ closing n) =
        ((dashes flags fuel b cs).1, (dashes flags fuel b cs).2 ++ closing n) ∨
      (dashes flags fuel b cs).2 = [] ∧ (dashes flags fuel' b (cs ++ closing n)).2 = [] := by
  induction fuel generalizing b cs fuel' with
  | zero => omega
  | succ fuel ih =>
    obtain ⟨fuel', rfl⟩ := Nat.exists_eq_succ_of_ne_zero (Nat.ne_of_gt (Nat.zero_lt_of_lt hfuel'))
    cases cs with
    | nil => exact .inl rfl
    | cons c cs =>
      by_cases hc : c = '-'
      · subst hc
        rw [List.cons_append]
        have hdash : ∀ {fuel : Nat} {more : List Char}, dashes flags (fuel + 1) b ('-' :: more) =
            dashes flags fuel (b.add (.single '-')) (flags.skip more) := rfl
        rw [hdash, hdash]
        simp only [List.cons_append, List.length_cons] at hfuel hfuel'
        have hskipped := (skip_suffix flags cs).length_le
        have hlonger := (skip_suffix flags (cs ++ closing n)).length_le
        rcases skip_append flags cs with ⟨d, more, hskip, hlong⟩ | ⟨hskip, hlong | hlong⟩
        · rw [hskip] at hskipped ⊢
          rw [hlong, ← List.cons_append] at hlonger ⊢
          exact ih (by omega) (by omega)
        · rw [hlong] at hlonger ⊢
          rw [hskip]
          exact @ih [] fuel' _ (by simp; omega) (by simp; omega)
        · rw [hskip, hlong]
          exact .inr ⟨List.suffix_nil.mp (dashes_suffix fuel _),
            List.suffix_nil.mp (dashes_suffix fuel' _)⟩
      · have hother : ∀ {fuel : Nat} {more : List Char}, dashes flags (fuel + 1) b (c :: more) =
            (b, c :: more) := by
          intro fuel more
          unfold dashes
          split
          · next hdash => exact absurd (List.cons.inj hdash).1 hc
          · rfl
        rw [List.cons_append, hother, hother]
        exact .inl rfl

/-- Whether the class is negated, and what stands behind the mark of negation. -/
def marked (flags : Flags) (cs : List Char) : Bool × List Char :=
  match flags.skip cs with
  | '^' :: more => (true, flags.skip more)
  | more => (false, more)

/-- The bracket behind the mark of negation. -/
def filled (flags : Flags) (negated : Bool) (cs : List Char) : Except Fault (Bracket × List Char) :=
  let (b, more) := dashes flags (cs.length + 1) (start negated) cs
  match cs, more with
  | ']' :: more, _ =>
    match flags.skip more with
    | [] => .error .badClass
    | more => .ok (b.add (.single ']'), more)
  | _, [] => .error .badClass
  | _, more => .ok (b, more)

theorem opened_eq : opened flags cs = filled flags (marked flags cs).1 (marked flags cs).2 := rfl

theorem marked_caret (h : flags.skip cs = '^' :: more) :
    marked flags cs = (true, flags.skip more) := by
  unfold marked
  rw [h]
  rfl

theorem marked_plain (h : ∀ more, flags.skip cs ≠ '^' :: more) :
    marked flags cs = (false, flags.skip cs) := by
  unfold marked
  split
  · next hskip => exact absurd hskip (h _)
  · rfl

theorem marked_suffix : (marked flags cs).2 <:+ cs := by
  by_cases hcaret : ∃ more, flags.skip cs = '^' :: more
  · obtain ⟨more, hskip⟩ := hcaret
    rw [marked_caret hskip]
    exact (skip_suffix flags more).trans (suffix_of_skip hskip)
  · rw [marked_plain fun more h => hcaret ⟨more, h⟩]
    exact skip_suffix flags cs

theorem marked_append (flags : Flags) (cs : List Char) (n : Nat) :
    marked flags (cs ++ closing n) =
        ((marked flags cs).1, (marked flags cs).2 ++ closing n) ∨
      (marked flags cs).2 = [] ∧ marked flags (cs ++ closing n) = ((marked flags cs).1, []) := by
  by_cases hcaret : ∃ more, flags.skip cs = '^' :: more
  · obtain ⟨more, hskip⟩ := hcaret
    have hlong : flags.skip (cs ++ closing n) = '^' :: (more ++ closing n) := by
      rcases skip_append_or flags cs n with h | ⟨h, -⟩
      · rw [h, hskip]
        rfl
      · cases hskip.symm.trans h
    rw [marked_caret hskip, marked_caret hlong]
    rcases skip_append_or flags more n with h | ⟨h, h'⟩
    · exact .inl (by rw [h])
    · exact .inr ⟨h, by rw [h']⟩
  · have hplain : ∀ more, flags.skip cs ≠ '^' :: more := fun more h => hcaret ⟨more, h⟩
    have hlong : ∀ more, flags.skip (cs ++ closing n) ≠ '^' :: more := by
      rcases skip_append_or flags cs n with h | ⟨-, h⟩
      · rw [h]
        exact ne_cons_append (by decide) hplain
      · rw [h]
        exact nofun
    rw [marked_plain hplain, marked_plain hlong]
    rcases skip_append_or flags cs n with h | ⟨h, h'⟩
    · exact .inl (by rw [h])
    · exact .inr ⟨h, by rw [h']⟩

theorem filled_bracket {negated : Bool} :
    filled flags negated (']' :: more) =
      if flags.skip more = [] then .error .badClass
      else .ok ((start negated).add (.single ']'), flags.skip more) := by
  have hfilled : filled flags negated (']' :: more) =
      match flags.skip more with
      | [] => .error .badClass
      | more => .ok ((start negated).add (.single ']'), more) := rfl
  rw [hfilled]
  cases flags.skip more <;> rfl

theorem filled_plain {negated : Bool} (h : ∀ more, cs ≠ ']' :: more) :
    filled flags negated cs =
      if (dashes flags (cs.length + 1) (start negated) cs).2 = [] then .error .badClass
      else .ok (dashes flags (cs.length + 1) (start negated) cs) := by
  unfold filled
  generalize dashes flags (cs.length + 1) (start negated) cs = read
  obtain ⟨b, more⟩ := read
  dsimp only
  split
  · exact absurd rfl (h _)
  · rfl
  · next hmore => rw [if_neg hmore]

theorem filled_leaves {negated : Bool} : Leaves cs (filled flags negated cs) := by
  by_cases hbracket : ∃ more, cs = ']' :: more
  · obtain ⟨more, rfl⟩ := hbracket
    rw [filled_bracket]
    split
    · exact .error
    · exact .ok ((skip_suffix flags more).trans (List.suffix_cons _ _))
  · rw [filled_plain fun more h => hbracket ⟨more, h⟩]
    split
    · exact .error
    · exact .ok (dashes_suffix _ _)

theorem filled_extends {negated : Bool} :
    Extends n Unclosed (filled flags negated cs) (filled flags negated (cs ++ closing n)) := by
  by_cases hbracket : ∃ more, cs = ']' :: more
  · obtain ⟨more, rfl⟩ := hbracket
    rw [List.cons_append, filled_bracket, filled_bracket]
    rcases skip_append_or flags more n with h | ⟨h, h'⟩
    · have hlonger : flags.skip more ++ closing n ≠ [] := append_closing_ne_nil
      rw [h, if_neg hlonger]
      split
      · next hnil =>
        rw [hnil]
        rintro _ ⟨⟩
        exact unclosed_closing n
      · exact rfl
    · rw [h, h']
      exact .errors
  · have hplain : ∀ more, cs ≠ ']' :: more := fun more h => hbracket ⟨more, h⟩
    rw [filled_plain hplain, filled_plain (ne_cons_append (by decide) hplain)]
    have hdashes : dashes flags ((cs ++ closing n).length + 1) (start negated) (cs ++ closing n) =
          ((dashes flags (cs.length + 1) (start negated) cs).1,
            (dashes flags (cs.length + 1) (start negated) cs).2 ++ closing n) ∨
        (dashes flags (cs.length + 1) (start negated) cs).2 = [] ∧
          (dashes flags ((cs ++ closing n).length + 1) (start negated) (cs ++ closing n)).2 = [] :=
      dashes_append (Nat.lt_succ_self _) (Nat.lt_succ_self _)
    rcases hdashes with hsame | ⟨hends, hends'⟩
    · have hlonger : (dashes flags (cs.length + 1) (start negated) cs).2 ++ closing n ≠ [] :=
        append_closing_ne_nil
      rw [hsame, if_neg hlonger]
      split
      · next hnil =>
        rw [hnil]
        rintro _ ⟨⟩
        exact unclosed_closing n
      · exact rfl
    · rw [if_pos hends, if_pos hends']
      exact .errors

theorem opened_leaves : Leaves cs (opened flags cs) := by
  rw [opened_eq]
  exact filled_leaves.of_suffix marked_suffix

theorem opened_extends :
    Extends n Unclosed (opened flags cs) (opened flags (cs ++ closing n)) := by
  rw [opened_eq, opened_eq]
  rcases marked_append flags cs n with hsame | ⟨hends, hsame⟩
  · rw [hsame]
    exact filled_extends
  · rw [hsame, hends]
    exact .errors

/-- The class of a name that ends with a colon and a closing bracket. -/
def named? (flags : Flags) (negated : Bool) (cs : List Char) : Option (CharClass × List Char) :=
  match cs.dropWhile (· ≠ ':') with
  | ':' :: ']' :: after =>
    (posix? (String.ofList (cs.takeWhile (· ≠ ':')))).map fun a =>
      (if negated then .not (ignoringCase flags a) else ignoringCase flags a, after)
  | _ => none

/-- Whether the named class is negated, and the text behind the mark. -/
def negation (cs : List Char) : Bool × List Char :=
  match cs with
  | '^' :: left => (true, left)
  | _ => (false, cs)

theorem namedClass?_colon :
    namedClass? flags (':' :: cs) = named? flags (negation cs).1 (negation cs).2 := rfl

theorem negation_plain (h : ∀ more, cs ≠ '^' :: more) : negation cs = (false, cs) := by
  unfold negation
  split
  · exact absurd rfl (h _)
  · rfl

theorem namedClass?_plain (h : ∀ more, cs ≠ '^' :: more) :
    namedClass? flags (':' :: cs) = named? flags false cs := by
  rw [namedClass?_colon, negation_plain h]

theorem namedClass?_none (h : ∀ more, cs ≠ ':' :: more) : namedClass? flags cs = none := by
  unfold namedClass?
  split
  · exact absurd rfl (h _)
  · rfl

theorem colon_not_mem_closing (n : Nat) : ':' ∉ closing n := by
  simp [closing, List.mem_replicate]

theorem named?_append {negated : Bool} :
    named? flags negated (cs ++ closing n) =
      (named? flags negated cs).map fun read => (read.1, read.2 ++ closing n) := by
  unfold named?
  rw [dropWhile_closing colon_not_mem_closing]
  by_cases hsome : cs.dropWhile (· ≠ ':') = []
  · rw [if_pos hsome, hsome]
    rfl
  · rw [if_neg hsome, takeWhile_closing hsome]
    generalize cs.dropWhile (· ≠ ':') = after at hsome ⊢
    generalize posix? (String.ofList (cs.takeWhile (· ≠ ':'))) = known
    match after, hsome with
    | [c], _ =>
      by_cases hc : c = ':'
      · subst hc
        rfl
      · simp [hc]
    | c :: d :: after, _ =>
      by_cases hends : c = ':' ∧ d = ']'
      · obtain ⟨rfl, rfl⟩ := hends
        cases known <;> rfl
      · have hnone : ∀ {α : Type} (after : List Char) (found : List Char → Option α),
            (match c :: d :: after with
              | ':' :: ']' :: after => found after
              | _ => none) = none := by
          intro α after found
          split
          · next hmatch =>
            cases hmatch
            exact absurd ⟨rfl, rfl⟩ hends
          · rfl
        simp only [List.cons_append]
        rw [hnone, hnone]
        rfl

theorem namedClass?_append :
    namedClass? flags (cs ++ closing n) =
      (namedClass? flags cs).map fun read => (read.1, read.2 ++ closing n) := by
  cases cs with
  | nil => rfl
  | cons c cs =>
    by_cases hc : c = ':'
    · subst hc
      cases cs with
      | nil => exact named?_append
      | cons d cs =>
        by_cases hd : d = '^'
        · subst hd
          exact named?_append
        · have hplain : ∀ {left : List Char}, ∀ more, d :: left ≠ '^' :: more :=
            fun more h => hd (List.cons.inj h).1
          simp only [List.cons_append]
          rw [namedClass?_plain hplain, namedClass?_plain hplain]
          exact @named?_append (d :: cs) n flags false
    · have hnone : ∀ {left : List Char}, ∀ more, c :: left ≠ ':' :: more :=
        fun more h => hc (List.cons.inj h).1
      rw [List.cons_append, namedClass?_none hnone, namedClass?_none hnone]
      rfl

theorem named?_suffix {negated : Bool} {read : CharClass × List Char}
    (h : named? flags negated cs = some read) : read.2 <:+ cs := by
  unfold named? at h
  split at h
  · next after hafter =>
    obtain ⟨a, -, rfl⟩ := Option.map_eq_some_iff.mp h
    have hdrop := List.dropWhile_suffix (l := cs) fun c : Char => decide (c ≠ ':')
    rw [hafter] at hdrop
    exact ((List.suffix_cons _ _).trans (List.suffix_cons _ _)).trans hdrop
  · cases h

theorem namedClass?_suffix {read : CharClass × List Char} (h : namedClass? flags cs = some read) :
    read.2 <:+ cs := by
  by_cases hcolon : ∃ more, cs = ':' :: more
  · obtain ⟨more, rfl⟩ := hcolon
    by_cases hcaret : ∃ left, more = '^' :: left
    · obtain ⟨left, rfl⟩ := hcaret
      exact (named?_suffix h).trans ((List.suffix_cons _ _).trans (List.suffix_cons _ _))
    · rw [namedClass?_plain fun left hleft => hcaret ⟨left, hleft⟩] at h
      exact (named?_suffix h).trans (List.suffix_cons _ _)
  · rw [namedClass?_none fun more hmore => hcolon ⟨more, hmore⟩] at h
    cases h

theorem item_leaves : Leaves cs.tail (item flags cs) := by
  unfold item
  split
  · exact Atom.escape_leaves
  · exact .ok (List.suffix_refl _)
  · exact .error

theorem item_extends :
    Extends n (Stranded flags n) (item flags cs) (item flags (cs ++ closing n)) := by
  cases cs with
  | nil =>
    refine fun read hread => .inl ?_
    cases hread
    exact spent_dollars n
  | cons c cs =>
    by_cases hc : c = '\\'
    · subst hc
      exact Atom.escape_extends
    · have hplain : ∀ {more : List Char}, item flags (c :: more) = .ok (.char c, more) := by
        intro more
        simp only [item]
      rw [List.cons_append, hplain, hplain]
      exact rfl

/-- The first character that is no blank; of a comment the first one within. -/
def firstWithin (cs : List Char) : Option Char :=
  match cs with
  | '#' :: more => (more.dropWhile Text.isBlank).head?
  | cs => cs.head?

theorem firstWithin_append {c : Char} (hc : c ≠ ')') :
    firstWithin (cs ++ closing n) = some c ↔ firstWithin cs = some c := by
  cases cs with
  | nil => exact @head?_append [] n c hc
  | cons d more =>
    by_cases hd : d = '#'
    · subst hd
      change ((more ++ closing n).dropWhile Text.isBlank).head? = some c ↔
        (more.dropWhile Text.isBlank).head? = some c
      rw [dropWhile_isBlank_append]
      exact head?_append hc
    · have hplain : ∀ {left : List Char}, firstWithin (d :: left) = some d := by
        intro left
        unfold firstWithin
        split
        · next hsharp =>
          cases hsharp
          exact absurd rfl hd
        · rfl
      rw [List.cons_append, hplain, hplain]

theorem ahead_append {c : Char} (hc : c ≠ ')') :
    ahead flags (cs ++ closing n) = some c ↔ ahead flags cs = some c := by
  have hahead : ∀ cs, ahead flags cs =
      if flags.extended then firstWithin (cs.dropWhile Text.isBlank) else cs.head? := fun _ => rfl
  rw [hahead, hahead]
  split
  · rw [dropWhile_isBlank_append]
    exact firstWithin_append hc
  · exact head?_append hc

/-- What an item that is no end of a range stands for. -/
def alone (flags : Flags) (first : Atom) : Except Fault CharClass :=
  match first with
  | .cls a => checkedClass flags a
  | .look _ => .error .badClass
  | .char _ => do pure (.single (← literal flags first))

def spanned (flags : Flags) (first last : Atom) : Except Fault CharClass := do
  let first ← literal flags first
  let last ← literal flags last
  if first ≤ last then pure (.range first last) else .error .badRange

/-- What stands behind the first item decides whether a range follows. -/
def afterItem (flags : Flags) (first : Atom) (cs : List Char) :
    Except Fault (CharClass × List Char) :=
  let alone : Except Fault (CharClass × List Char) := match first with
    | .cls a => do pure (← checkedClass flags a, cs)
    | .look _ => .error .badClass
    | .char _ => do pure (.single (← literal flags first), cs)
  match cs with
  | [] => .error .badClass
  | '-' :: more =>
    if ahead flags more = some ']' ∨ ahead flags more = some '-' then alone
    else do
      let (last, cs) ← item flags (flags.skip more)
      let first ← literal flags first
      let last ← literal flags last
      if first ≤ last then pure (.range first last, cs) else .error .badRange
  | _ => alone

theorem itemOrRange_eq : itemOrRange flags cs = (do
    let (first, left) ← item flags cs
    afterItem flags first (flags.skip left)) := rfl

theorem afterItem_dash {first : Atom} : afterItem flags first ('-' :: more) =
    if ahead flags more = some ']' ∨ ahead flags more = some '-' then
      (do pure (← alone flags first, '-' :: more))
    else (do
      let (last, left) ← item flags (flags.skip more)
      pure (← spanned flags first last, left)) := by
  unfold afterItem
  simp only
  split
  · cases first with
    | cls a => rfl
    | look condition => rfl
    | char c =>
      unfold alone
      cases literal flags (.char c) <;> rfl
  · refine congrArg _ (funext fun read => ?_)
    unfold spanned
    cases literal flags first with
    | error fault => rfl
    | ok c =>
      cases literal flags read.1 with
      | error fault => rfl
      | ok d =>
        dsimp only [bind, Except.bind]
        split <;> rfl

theorem afterItem_plain {first : Atom} {c : Char} (hc : c ≠ '-') :
    afterItem flags first (c :: more) = (do pure (← alone flags first, c :: more)) := by
  have halone : afterItem flags first (c :: more) =
      match first with
      | .cls a => do pure (← checkedClass flags a, c :: more)
      | .look _ => .error .badClass
      | .char _ => (do pure (.single (← literal flags first), c :: more)) := by
    unfold afterItem
    dsimp only
    split
    · next hnil => cases hnil
    · next hdash =>
      cases hdash
      exact absurd rfl hc
    · rfl
  rw [halone]
  cases first with
  | cls a => rfl
  | look condition => rfl
  | char c =>
    unfold alone
    cases literal flags (.char c) <;> rfl

/-- A look takes no text, so no class has one. -/
theorem afterItem_look {condition : Look} {read : CharClass × List Char} :
    afterItem flags (.look condition) cs ≠ .ok read := by
  intro h
  cases cs with
  | nil => cases h
  | cons c more =>
    by_cases hc : c = '-'
    · subst hc
      rw [afterItem_dash] at h
      split at h
      · cases h
      · cases hitem : item flags (flags.skip more) <;> rw [hitem] at h <;> cases h
    · rw [afterItem_plain hc] at h
      cases h

theorem spanned_look {first : Atom} {condition : Look} {a : CharClass} :
    spanned flags first (.look condition) ≠ .ok a := by
  unfold spanned
  cases literal flags first <;> rintro ⟨⟩

theorem afterItem_leaves {first : Atom} : Leaves cs (afterItem flags first cs) := by
  cases cs with
  | nil => exact .error
  | cons c more =>
    by_cases hc : c = '-'
    · subst hc
      rw [afterItem_dash]
      split
      · exact .attach _
      · refine .bind (item_leaves.of_suffix ?_) fun read _ => .attach _
        exact ((List.tail_suffix _).trans (skip_suffix flags more)).trans (List.suffix_cons _ _)
    · rw [afterItem_plain hc]
      exact .attach _

theorem afterItem_extends {first : Atom} :
    Extends n Unclosed (afterItem flags first cs) (afterItem flags first (cs ++ closing n)) := by
  cases cs with
  | nil =>
    have hplain : afterItem flags first (closing n) =
        (do pure (← alone flags first, closing n)) := afterItem_plain (by decide)
    intro read hread
    rw [List.nil_append, hplain] at hread
    exact (unclosed_closing n).of_leaves (Leaves.attach _) hread
  | cons c more =>
    by_cases hc : c = '-'
    · subst hc
      rw [List.cons_append, afterItem_dash, afterItem_dash]
      simp only [ahead_append (show ']' ≠ ')' by decide), ahead_append (show '-' ≠ ')' by decide)]
      split
      · exact .attach _
      · rcases skip_append_or flags more n with h | ⟨h, h'⟩
        · rw [h]
          refine .bind item_extends (fun read _ => .attach _) ?_
          rintro ⟨last, left⟩ (hspent | ⟨⟨condition, hlook⟩, -⟩) read hread
          · exact (hspent.of_leaves (Leaves.attach _) hread).unclosed
          · cases hlook
            cases hspan : spanned flags first (.look condition) with
            | error fault =>
              rw [hspan] at hread
              cases hread
            | ok a => exact absurd hspan spanned_look
        · rw [h, h']
          exact .errors
    · rw [List.cons_append, afterItem_plain hc, afterItem_plain hc]
      exact .attach _

theorem itemOrRange_leaves : Leaves cs.tail (itemOrRange flags cs) := by
  rw [itemOrRange_eq]
  exact .bind item_leaves fun read _ => afterItem_leaves.of_suffix (skip_suffix flags read.2)

theorem itemOrRange_extends :
    Extends n Unclosed (itemOrRange flags cs) (itemOrRange flags (cs ++ closing n)) := by
  rw [itemOrRange_eq, itemOrRange_eq]
  refine .bind item_extends ?_ ?_
  · rintro ⟨first, left⟩ -
    change Extends n Unclosed (afterItem flags first (flags.skip left))
      (afterItem flags first (flags.skip (left ++ closing n)))
    rcases skip_append_or flags left n with h | ⟨h, h'⟩
    · rw [h]
      exact afterItem_extends
    · rw [h, h']
      exact .errors
  · rintro ⟨first, left⟩ (hspent | ⟨⟨condition, hlook⟩, -⟩) read hread
    · exact (hspent.of_leaves (afterItem_leaves.of_suffix (skip_suffix flags left)) hread).unclosed
    · cases hlook
      exact absurd hread afterItem_look

def operatorOf (c : Char) : Option SetOp :=
  match c with
  | '&' => some .and
  | '-' => some .minus
  | '~' => some .xor
  | _ => none

/-- The operator that is written with the same character twice. -/
def doubled (c : Char) (more : List Char) : Option (SetOp × List Char) :=
  match more with
  | [] => none
  | d :: left => if d = c then (operatorOf c).map fun op => (op, left) else none

theorem doubled_append {c : Char} :
    doubled c (more ++ closing n) =
      (doubled c more).map fun read => (read.1, read.2 ++ closing n) := by
  cases more with
  | nil =>
    by_cases hc : ')' = c
    · subst hc
      rfl
    · simp [doubled, closing, hc]
  | cons d left =>
    simp only [doubled, List.cons_append]
    split
    · rw [Option.map_map]
      rfl
    · rfl

theorem doubled_suffix {c : Char} {op : SetOp} (h : doubled c more = some (op, cs)) :
    cs <:+ more := by
  cases more with
  | nil => cases h
  | cons d left =>
    simp only [doubled] at h
    split at h
    · obtain ⟨_, -, hread⟩ := Option.map_eq_some_iff.mp h
      cases hread
      exact List.suffix_cons d _
    · cases h

theorem read_nil {fuel : Nat} {outer : List Bracket} {b : Bracket} (h : flags.skip cs = []) :
    read flags fuel outer b cs = .error .badClass := by
  cases fuel with
  | zero => rfl
  | succ fuel =>
    unfold read
    rw [h]

/-- One step, by the next character that is no blank. -/
theorem read_cons {fuel : Nat} {outer : List Bracket} {b : Bracket} {c : Char}
    (h : flags.skip cs = c :: more) :
    read flags (fuel + 1) outer b cs =
      if c = ']' then
        match outer with
        | [] => do pure (← checkedClass flags (b.close flags), b.depth + 1, more)
        | parent :: outer => do
          let a ← checkedClass flags (b.close flags)
          read flags fuel outer (parent.addNested a (b.depth + 1)) more
      else if c = '[' then
        match namedClass? flags more with
        | some (a, left) => do read flags fuel outer (b.add (← checkedClass flags a)) left
        | none => do
          let (inner, left) ← opened flags more
          read flags fuel (b :: outer) inner left
      else match doubled c more with
        | some (op, left) => read flags fuel outer (b.operator flags op) left
        | none => (do
          let (a, left) ← itemOrRange flags (c :: more)
          read flags fuel outer (b.add a) left) := by
  rw [read.eq_def]
  dsimp only
  rw [h]
  by_cases hclose : c = ']'
  · subst hclose
    rfl
  by_cases hopen : c = '['
  · subst hopen
    rfl
  rw [if_neg hclose, if_neg hopen]
  split
  · next hmatch => cases hmatch
  · next hmatch => exact absurd (List.cons.inj hmatch).1 hclose
  · next hmatch => exact absurd (List.cons.inj hmatch).1 hopen
  · next hmatch =>
    cases hmatch
    rfl
  · next hmatch =>
    cases hmatch
    rfl
  · next hmatch =>
    cases hmatch
    rfl
  · next hand hminus hxor =>
    have hnone : doubled c more = none := by
      cases more with
      | nil => rfl
      | cons d left =>
        simp only [doubled]
        split
        · next hsame =>
          subst hsame
          unfold operatorOf
          split
          · exact absurd rfl (hand left)
          · exact absurd rfl (hminus left)
          · exact absurd rfl (hxor left)
          · rfl
        · rfl
    rw [hnone]

theorem read_leaves {fuel : Nat} {outer : List Bracket} {b : Bracket} :
    Leaves cs (read flags fuel outer b cs) := by
  induction fuel generalizing outer b cs with
  | zero => exact .error
  | succ fuel ih =>
    cases hskip : flags.skip cs with
    | nil =>
      rw [read_nil hskip]
      exact .error
    | cons c more =>
      have hmore := suffix_of_skip hskip
      rw [read_cons hskip]
      split
      · cases outer with
        | nil =>
          dsimp only
          cases checkedClass flags (b.close flags) with
          | error fault => exact .error
          | ok a => exact .ok hmore
        | cons parent outer =>
          dsimp only
          cases checkedClass flags (b.close flags) with
          | error fault => exact .error
          | ok a => exact ih.of_suffix hmore
      · split
        · split
          · next a left hnamed =>
            cases checkedClass flags a with
            | error fault => exact .error
            | ok a => exact ih.of_suffix ((namedClass?_suffix hnamed).trans hmore)
          · exact .bind (opened_leaves.of_suffix hmore) fun read _ => ih
        · split
          · next op left hop => exact ih.of_suffix ((doubled_suffix hop).trans hmore)
          · exact .bind (itemOrRange_leaves.of_suffix hmore) fun read _ => ih

/-- A class that has begun needs its closing bracket. -/
theorem read_unclosed {fuel : Nat} {outer : List Bracket} {b : Bracket} (h : Unclosed cs)
    {a : CharClass × Nat × List Char} : read flags fuel outer b cs ≠ .ok a := by
  induction fuel generalizing outer b cs with
  | zero => exact fun hread => nomatch hread
  | succ fuel ih =>
    cases hskip : flags.skip cs with
    | nil =>
      rw [read_nil hskip]
      exact fun hread => nomatch hread
    | cons c more =>
      have hleft : ∀ {left : List Char}, left <:+ cs → Unclosed left :=
        fun hsuffix hc => h (hsuffix.subset hc)
      have hmore := suffix_of_skip hskip
      rw [read_cons hskip, if_neg]
      · split
        · split
          · next a left hnamed =>
            cases checkedClass flags a with
            | error fault => exact fun hread => nomatch hread
            | ok a => exact ih (hleft ((namedClass?_suffix hnamed).trans hmore))
          · cases hopened : opened flags more with
            | error fault => exact fun hread => nomatch hread
            | ok read => exact ih (hleft ((opened_leaves read hopened).trans hmore))
        · split
          · next op left hop => exact ih (hleft ((doubled_suffix hop).trans hmore))
          · cases hitem : itemOrRange flags (c :: more) with
            | error fault => exact fun hread => nomatch hread
            | ok read => exact ih (hleft ((itemOrRange_leaves read hitem).trans hmore))
      · rintro rfl
        exact h ((hskip ▸ skip_suffix flags cs).subset (List.mem_cons_self))

theorem read_extends {fuel fuel' : Nat} {outer : List Bracket} {b : Bracket}
    (hfuel : cs.length < fuel) (hfuel' : (cs ++ closing n).length < fuel') :
    Extends n (fun _ => False) (read flags fuel outer b cs)
      (read flags fuel' outer b (cs ++ closing n)) := by
  induction fuel generalizing outer b cs fuel' with
  | zero => omega
  | succ fuel ih =>
    have hdead : ∀ {outer : List Bracket} {b : Bracket} {fuel : Nat} {left : List Char},
        Unclosed left → ∀ a, read flags fuel outer b left = .ok a → False :=
      fun hunclosed a ha => read_unclosed hunclosed ha
    obtain ⟨fuel', rfl⟩ := Nat.exists_eq_succ_of_ne_zero (Nat.ne_of_gt (Nat.zero_lt_of_lt hfuel'))
    rcases skip_append flags cs with ⟨c, more, hskip, hlong⟩ | ⟨hskip, hlong | hlong⟩
    · have hmore := length_of_skip hskip
      have hlonger := length_of_skip (hlong n)
      have hnext : ∀ {outer : List Bracket} {b : Bracket} {left : List Char}, left <:+ more →
          Extends n (fun _ => False) (read flags fuel outer b left)
            (read flags fuel' outer b (left ++ closing n)) := by
        intro outer b left hleft
        have hlength := hleft.length_le
        rw [List.length_append] at hlonger
        exact ih (by omega) (by rw [List.length_append]; omega)
      rw [read_cons hskip, read_cons (hlong n)]
      split
      · cases outer with
        | nil =>
          dsimp only
          cases checkedClass flags (b.close flags) with
          | error fault => exact .errors
          | ok a => exact rfl
        | cons parent outer =>
          dsimp only
          cases checkedClass flags (b.close flags) with
          | error fault => exact .errors
          | ok a => exact hnext (List.suffix_refl _)
      · split
        · rw [namedClass?_append]
          cases hnamed : namedClass? flags more with
          | some read =>
            dsimp only [Option.map_some]
            cases checkedClass flags read.1 with
            | error fault => exact .errors
            | ok a => exact hnext (namedClass?_suffix hnamed)
          | none =>
            refine .bind opened_extends (fun read hopened => ?_) fun read => hdead
            exact hnext (opened_leaves read hopened)
        · rw [doubled_append]
          cases hop : doubled c more with
          | some read => exact hnext (doubled_suffix hop)
          | none =>
            refine .bind itemOrRange_extends (fun read hitem => ?_) fun read => hdead
            exact hnext (itemOrRange_leaves read hitem)
    · -- Blanks and comments may hold a bracket, so it is the text behind them that has none.
      have hclosing : flags.skip (closing n) = closing n := by
        unfold Flags.skip
        split
        · exact (skipFrom_closing n).2
        · rfl
      rw [read_nil hskip, read_cons (hlong n), ← read_cons hclosing]
      exact .error fun a => read_unclosed (unclosed_closing n)
    · rw [read_nil hskip, read_nil (hlong n)]
      exact .errors

end Bracket

end Rulebook.Pattern
