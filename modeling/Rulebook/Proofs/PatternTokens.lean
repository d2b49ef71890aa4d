import Rulebook.Proofs.BracketRemainders

/-!
# Tokens of patterns

What a step of reading takes from the text does not depend on the groups that are open, and what it
does to them does not depend on the text that follows. So a step has two parts, a token and its
effect (`State.read_cons`). With the closing text behind it the same token is read
(`Token.next_carries`), unless none can be read at all.
-/
namespace Rulebook.Pattern

open Remainder (rest extend)

variable {α β : Type} [Remainder α] [Remainder β] {cs more : List Char} {n : Nat} {flags : Flags}

inductive Token where
  | capture (name : Option (List Char))
  | group (flags : Flags)
  | flags (flags : Flags)
  | close
  | bar
  | atom (a : Atom)
  | cls (a : CharClass) (depth : Nat)
  | again (least : Nat) (most : Option Nat)

namespace Token

def named (cs : List Char) : Except Fault (Token × List Char) :=
  match cs.dropWhile (· ≠ '>'), cs.takeWhile (· ≠ '>') with
  | [], _ => .error .badGroupName
  | _, [] => .error .badGroupName
  | _ :: left, first :: others =>
    if !State.isNameChar true first ∨ !others.all (State.isNameChar false) then
      .error .badGroupName
    else .ok (.capture (some (first :: others)), left)

def flagged (flags : Flags) (cs : List Char) : Except Fault (Token × List Char) := do
  let (flags, any, mark, left) ← State.flagItems flags true false [] cs
  if mark = ':' then pure (.group flags, left)
  else if any then pure (.flags flags, left)
  else throw .nothingToRepeat

/-- What follows an opening parenthesis, by its first characters. -/
inductive Opening where
  | look
  | named (left : List Char)
  | alone
  | flagged (left : List Char)
  | plain

def Opening.of : List Char → Opening
  | '?' :: more =>
    match more with
    | [] => .alone
    | c :: left =>
      if c = '=' ∨ c = '!' then .look
      else if c = '<' then
        if left.head? = some '=' ∨ left.head? = some '!' then .look else .named left
      else if c = 'P' ∧ left.head? = some '<' then .named left.tail
      else .flagged more
  | _ => .plain

/-- After an opening parenthesis. -/
def opening (flags : Flags) (cs : List Char) : Except Fault (Token × List Char) :=
  match Opening.of (flags.skip cs) with
  | .look => .error .lookAround
  | .named left => named left
  | .alone => .error .unclosedGroup
  | .flagged left => flagged flags left
  | .plain => .ok (.capture none, flags.skip cs)

def lineStart (flags : Flags) : Look :=
  if flags.multiLine then .lineStart flags.crlf else .textStart

def lineEnd (flags : Flags) : Look :=
  if flags.multiLine then .lineEnd flags.crlf else .textEnd

/-- The token that begins with the given character. -/
def next (flags : Flags) (c : Char) (cs : List Char) : Except Fault (Token × List Char) :=
  match c with
  | '(' => opening flags cs
  | ')' => .ok (.close, cs)
  | '|' => .ok (.bar, cs)
  | '[' => do
    let (b, left) ← Bracket.opened flags cs
    let (a, depth, left) ← Bracket.read flags (left.length + 1) [] b left
    pure (.cls a depth, left)
  | '?' => .ok (.again 0 (some 1), State.skipLazy cs)
  | '*' => .ok (.again 0 none, State.skipLazy cs)
  | '+' => .ok (.again 1 none, State.skipLazy cs)
  | '\x7b' => do
    let (least, most, left) ← State.counts flags cs
    pure (.again least most, State.skipLazy (flags.skip left))
  | '\\' => do
    let (a, left) ← Atom.escape flags cs
    pure (.atom a, left)
  | '.' => .ok (.atom (.cls (State.anyChar flags)), cs)
  | '^' => .ok (.atom (.look (lineStart flags)), cs)
  | '$' => .ok (.atom (.look (lineEnd flags)), cs)
  | c => .ok (.atom (.char c), cs)

end Token

namespace State

/-- What a token does. -/
def take (s : State) : Token → Except Fault State
  | .capture none => .ok s.enterCapture
  | .capture (some name) =>
    if s.names.contains name then .error .repeatedGroupName
    else .ok { s.enterCapture with names := name :: s.names }
  | .group flags => .ok (s.enter flags none)
  | .flags flags => .ok ({ s with flags := flags }.add ⟨nothing, 0, false⟩)
  | .close => s.closeGroup
  | .bar => .ok { s with level := s.level.branch }
  | .atom a => s.addAtom a
  | .cls a depth => .ok (s.add ⟨.one a, depth, true⟩)
  | .again least most => s.repeatLast least most

theorem groupName_eq (s : State) (cs : List Char) : s.groupName cs = (do
    let (token, left) ← Token.named cs
    pure (← s.take token, left)) := by
  have hdrop := @List.drop_left _ (cs.takeWhile (· ≠ '>')) (cs.dropWhile (· ≠ '>'))
  rw [List.takeWhile_append_dropWhile] at hdrop
  unfold groupName Token.named
  simp only [hdrop]
  generalize cs.dropWhile (· ≠ '>') = left
  generalize cs.takeWhile (· ≠ '>') = name
  cases left with
  | nil => rfl
  | cons c left =>
    cases name with
    | nil => rfl
    | cons first others =>
      dsimp only
      split
      · rfl
      · simp only [take, bind, Except.bind]
        split <;> rfl

theorem openGroup_eq (s : State) (cs : List Char) : s.openGroup cs = (do
    let (token, left) ← Token.opening s.flags cs
    pure (← s.take token, left)) := by
  have hhead : ∀ {c : Char} {left : List Char}, (∀ tail, left = c :: tail → False) →
      left.head? ≠ some c := by
    intro c left h hhead
    cases left with
    | nil => cases hhead
    | cons d tail =>
      cases hhead
      exact h tail rfl
  have hflagged : ∀ left, (do
      let (flags, any, mark, left) ← flagItems s.flags true false [] left
      if mark = ':' then pure (s.enter flags none, left)
      else if any then pure ({ s with flags := flags }.add ⟨nothing, 0, false⟩, left)
      else throw .nothingToRepeat : Except Fault (State × List Char)) = (do
      let (token, left) ← Token.flagged s.flags left
      pure (← s.take token, left)) := by
    intro left
    unfold Token.flagged
    cases flagItems s.flags true false [] left with
    | error fault => rfl
    | ok read =>
      obtain ⟨flags, any, mark, left⟩ := read
      simp only [bind, Except.bind]
      split
      · rfl
      · split <;> rfl
  unfold openGroup Token.opening
  generalize s.flags.skip cs = left
  split
  · rfl
  · rfl
  · rfl
  · rfl
  · exact groupName_eq s _
  · next left hequal hnot =>
    have hnamed : Token.Opening.of ('?' :: '<' :: left) = .named left := by
      simp [Token.Opening.of, hhead hequal, hhead hnot]
    rw [hnamed]
    exact groupName_eq s left
  · rfl
  · next left hequal hnot _ _ hnamed hshort halone =>
    have hflag : Token.Opening.of ('?' :: left) = .flagged left := by
      cases left with
      | nil => exact absurd rfl halone
      | cons c left =>
        have hlook : ¬(c = '=' ∨ c = '!') := by
          rintro (rfl | rfl)
          · exact hequal left rfl
          · exact hnot left rfl
        have hless : c ≠ '<' := by
          rintro rfl
          exact hshort left rfl
        have hletter : ¬(c = 'P' ∧ left.head? = some '<') := by
          rintro ⟨rfl, hleft⟩
          exact hhead (fun tail htail => hnamed tail (by rw [htail])) hleft
        simp only [Token.Opening.of]
        rw [if_neg hlook, if_neg hless, if_neg hletter]
    rw [hflag]
    exact hflagged left
  · next hmark =>
    have hplain : Token.Opening.of left = .plain := by
      unfold Token.Opening.of
      split
      · exact absurd rfl (hmark _)
      · rfl
    rw [hplain]
    rfl

theorem read_nil {fuel : Nat} {s : State} (h : s.flags.skip cs = []) :
    read (fuel + 1) s cs = s.finish := by
  unfold read
  rw [h]

theorem read_cons {fuel : Nat} {s : State} {c : Char} (h : s.flags.skip cs = c :: more) :
    read (fuel + 1) s cs = (do
      let (token, left) ← Token.next s.flags c more
      read fuel (← s.take token) left) := by
  rw [read.eq_def]
  dsimp only
  rw [h]
  split
  · next hmatch => cases hmatch
  · next hmatch =>
    cases hmatch
    rw [openGroup_eq]
    unfold Token.next
    dsimp only
    cases Token.opening s.flags more with
    | error fault => rfl
    | ok read =>
      simp only [bind, Except.bind]
      cases s.take read.1 <;> rfl
  · next hmatch =>
    cases hmatch
    rfl
  · next hmatch =>
    cases hmatch
    rfl
  · next hmatch =>
    cases hmatch
    unfold Token.next
    simp only [bind, Except.bind]
    cases Bracket.opened s.flags more with
    | error fault => rfl
    | ok opened => 
      dsimp only
      cases Bracket.read s.flags (opened.2.length + 1) [] opened.1 opened.2 <;> rfl
  · next hmatch =>
    cases hmatch
    rfl
  · next hmatch =>
    cases hmatch
    rfl
  · next hmatch =>
    cases hmatch
    rfl
  · next hmatch =>
    cases hmatch
    unfold Token.next
    simp only [bind, Except.bind]
    cases counts s.flags more <;> rfl
  · next hmatch =>
    cases hmatch
    unfold Token.next
    simp only [bind, Except.bind]
    cases Atom.escape s.flags more <;> rfl
  · next hmatch =>
    cases hmatch
    unfold Token.next
    simp only [bind, Except.bind]
    cases hany : checkedClass s.flags (anyChar s.flags) <;> simp only [take, addAtom, hany] <;> rfl
  · next hmatch =>
    cases hmatch
    rfl
  · next hmatch =>
    cases hmatch
    rfl
  · next hmatch =>
    cases hmatch
    have hplain : Token.next s.flags c more = .ok (.atom (.char c), more) := by
      unfold Token.next
      split <;> simp_all
    rw [hplain]
    rfl

/-! ### Counts -/

theorem countDigits_suffix (fuel : Nat) : (countDigits flags fuel cs).2 <:+ cs := by
  induction fuel generalizing cs with
  | zero => exact List.suffix_refl _
  | succ fuel ih =>
    unfold countDigits
    split
    · next c more =>
      split
      · exact (ih.trans (skip_suffix flags more)).trans (List.suffix_cons c more)
      · exact List.suffix_refl _
    · exact List.suffix_refl _

/-- The second result is the first one with the closing text behind it, unless the text has ended
in both. -/
theorem countDigits_append {fuel fuel' : Nat} (hfuel : cs.length < fuel)
    (hfuel' : (cs ++ closing n).length < fuel') :
    Carried n (countDigits flags fuel cs) (countDigits flags fuel' (cs ++ closing n)) := by
  induction fuel generalizing cs fuel' with
  | zero => omega
  | succ fuel ih =>
    obtain ⟨fuel', rfl⟩ := Nat.exists_eq_succ_of_ne_zero (Nat.ne_of_gt (Nat.zero_lt_of_lt hfuel'))
    cases cs with
    | nil => exact .inl rfl
    | cons c cs =>
      simp only [List.cons_append, countDigits, List.length_cons] at hfuel hfuel' ⊢
      split
      · have hdigit : ∀ {read read' : List Char × List Char}, Carried n read read' →
            Carried n (c :: read.1, read.2) (c :: read'.1, read'.2) := by
          rintro read read' (rfl | ⟨hends, rfl⟩)
          · exact .inl rfl
          · exact .inr ⟨hends, rfl⟩
        have hskipped := (skip_suffix flags cs).length_le
        have hlonger := (skip_suffix flags (cs ++ closing n)).length_le
        apply hdigit
        rcases skip_append_or flags cs n with hskip | ⟨hskip, hlong⟩
        · rw [hskip] at hlonger ⊢
          exact ih (by omega) (by omega)
        · rw [hskip, hlong]
          have hnil : ∀ fuel, countDigits flags fuel [] = ([], []) := by
            intro fuel
            cases fuel <;> rfl
          rw [hnil, hnil]
          exact .inr ⟨rfl, rfl⟩
      · exact .inl rfl

/-- What follows the digits. -/
def counted (flags : Flags) (read : List Char × List Char) : Except Fault (Nat × List Char) :=
  match read with
  | ([], _) => .error .badCount
  | (digits, left) =>
    let k := digits.foldl (fun k c => k * 10 + (c.toNat - '0'.toNat)) 0
    if k < 4294967296 then .ok (k, flags.skip (left.dropWhile Text.isBlank)) else .error .badCount

theorem count_eq : count flags cs =
    counted flags (countDigits flags ((cs.dropWhile Text.isBlank).length + 1)
      (cs.dropWhile Text.isBlank)) := rfl

theorem count_nil : count flags [] = .error .badCount := rfl

theorem count_closing : count flags (closing n) = .error .badCount := rfl

theorem count_leaves : Leaves cs (count flags cs) := by
  rw [count_eq]
  have hread := @countDigits_suffix (cs.dropWhile Text.isBlank) flags
    ((cs.dropWhile Text.isBlank).length + 1)
  unfold counted
  split
  · exact .error
  · next digits left _ hdigits =>
    rw [hdigits] at hread
    dsimp only
    split
    · refine .ok ?_
      exact ((skip_suffix flags _).trans (List.dropWhile_suffix _)).trans
        (hread.trans (List.dropWhile_suffix _))
    · exact .error

theorem counted_carries {read read' : List Char × List Char} (h : Carried n read read') :
    Carries n (fun _ => False) (counted flags read) (counted flags read') := by
  obtain ⟨digits, left⟩ := read
  cases digits with
  | nil =>
    rcases h with rfl | ⟨-, rfl⟩
    · exact Extends.errors.carries
    · exact Extends.errors.carries
  | cons c digits =>
    rcases h with rfl | ⟨hends, rfl⟩
    · unfold counted
      simp only [Remainder.extend]
      split
      · refine ⟨_, rfl, ?_⟩
        rw [dropWhile_isBlank_append]
        rcases skip_append_or flags (left.dropWhile Text.isBlank) n with h | ⟨h, h'⟩
        · exact .inl (by rw [h]; rfl)
        · exact .inr ⟨h, by rw [h, h']⟩
      · exact Extends.errors.carries
    · cases hends
      unfold counted
      dsimp only
      split
      · exact ⟨_, rfl, .inr ⟨List.suffix_nil.mp (skip_suffix flags _), rfl⟩⟩
      · exact Extends.errors.carries

theorem count_carries :
    Carries n (fun _ => False) (count flags cs) (count flags (cs ++ closing n)) := by
  rw [count_eq, count_eq, dropWhile_isBlank_append]
  exact counted_carries (countDigits_append (Nat.lt_succ_self _) (Nat.lt_succ_self _))

/-- What follows the greatest count. -/
def bounded (least most : Nat) (cs : List Char) : Except Fault (Nat × Option Nat × List Char) :=
  match cs with
  | '\x7d' :: left => if least ≤ most then pure (least, some most, left) else throw .badCount
  | _ => throw .badCount

/-- What follows the comma. -/
def upper (flags : Flags) (least : Nat) (cs : List Char) :
    Except Fault (Nat × Option Nat × List Char) :=
  match flags.skip cs with
  | '\x7d' :: left => pure (least, none, left)
  | left => do
    let (most, left) ← count flags left
    bounded least most left

/-- What follows the least count. -/
def openCount (flags : Flags) (least : Nat) (cs : List Char) :
    Except Fault (Nat × Option Nat × List Char) :=
  match cs with
  | '\x7d' :: left => pure (least, some least, left)
  | ',' :: left => upper flags least left
  | _ => throw .badCount

theorem counts_eq : counts flags cs = (do
    let (least, left) ← count flags (flags.skip cs)
    openCount flags least left) := rfl

theorem bounded_leaves {least most : Nat} : Leaves cs (bounded least most cs) := by
  unfold bounded
  split
  · split
    · exact .ok (List.suffix_cons _ _)
    · exact .error
  · exact .error

theorem bounded_plain {least most : Nat} (h : ∀ more, cs ≠ '\x7d' :: more) :
    bounded least most cs = .error .badCount := by
  unfold bounded
  split
  · exact absurd rfl (h _)
  · rfl

theorem bounded_extends {least most : Nat} : Extends n (fun _ => False) (bounded least most cs)
    (bounded least most (cs ++ closing n)) := by
  by_cases hbrace : ∃ more, cs = '\x7d' :: more
  · obtain ⟨more, rfl⟩ := hbrace
    simp only [bounded, List.cons_append]
    split
    · exact rfl
    · exact .errors
  · have hplain : ∀ more, cs ≠ '\x7d' :: more := fun more h => hbrace ⟨more, h⟩
    rw [bounded_plain hplain, bounded_plain (ne_cons_append (by decide) hplain)]
    exact .errors

theorem upper_plain {least : Nat} (h : ∀ more, flags.skip cs ≠ '\x7d' :: more) :
    upper flags least cs = (do
      let (most, left) ← count flags (flags.skip cs)
      bounded least most left) := by
  unfold upper
  split
  · next hskip => exact absurd hskip (h _)
  · rfl

theorem upper_leaves {least : Nat} : Leaves cs (upper flags least cs) := by
  unfold upper
  split
  · next left hskip => exact .ok (suffix_of_skip hskip)
  · exact .bind (count_leaves.of_suffix (skip_suffix flags _)) fun read _ => bounded_leaves

theorem upper_extends {least : Nat} : Extends n (fun _ => False) (upper flags least cs)
    (upper flags least (cs ++ closing n)) := by
  rcases skip_append_or flags cs n with hskip | ⟨hskip, hlong⟩
  · by_cases hends : ∃ left, flags.skip cs = '\x7d' :: left
    · obtain ⟨left, hleft⟩ := hends
      rw [hleft] at hskip
      simp only [upper, hleft, hskip, List.cons_append]
      exact rfl
    · have hplain : ∀ left, flags.skip cs ≠ '\x7d' :: left := fun left h => hends ⟨left, h⟩
      have hlonger : ∀ left, flags.skip (cs ++ closing n) ≠ '\x7d' :: left := by
        rw [hskip]
        exact ne_cons_append (by decide) hplain
      rw [upper_plain hplain, upper_plain hlonger, hskip]
      refine count_carries.bind (fun read _ => bounded_extends) ?_
      rintro ⟨most, left⟩ hends
      cases hends
      exact .errors
  · rw [upper_plain (by simp [hskip]), upper_plain (by simp [hlong]), hskip, hlong, count_nil]
    exact .errors

theorem openCount_plain {least : Nat} (hbrace : ∀ more, cs ≠ '\x7d' :: more)
    (hcomma : ∀ more, cs ≠ ',' :: more) : openCount flags least cs = .error .badCount := by
  unfold openCount
  split
  · exact absurd rfl (hbrace _)
  · exact absurd rfl (hcomma _)
  · rfl

theorem openCount_leaves {least : Nat} : Leaves cs (openCount flags least cs) := by
  unfold openCount
  split
  · exact .ok (List.suffix_cons _ _)
  · exact upper_leaves.of_suffix (List.suffix_cons _ _)
  · exact .error

theorem openCount_extends {least : Nat} : Extends n (fun _ => False) (openCount flags least cs)
    (openCount flags least (cs ++ closing n)) := by
  by_cases hbrace : ∃ more, cs = '\x7d' :: more
  · obtain ⟨more, rfl⟩ := hbrace
    exact rfl
  by_cases hcomma : ∃ more, cs = ',' :: more
  · obtain ⟨more, rfl⟩ := hcomma
    exact upper_extends
  have hplain : ∀ more, cs ≠ '\x7d' :: more := fun more h => hbrace ⟨more, h⟩
  have hplainer : ∀ more, cs ≠ ',' :: more := fun more h => hcomma ⟨more, h⟩
  rw [openCount_plain hplain hplainer, openCount_plain (ne_cons_append (by decide) hplain)
    (ne_cons_append (by decide) hplainer)]
  exact .errors

theorem counts_leaves : Leaves cs (counts flags cs) := by
  rw [counts_eq]
  exact .bind (count_leaves.of_suffix (skip_suffix flags cs)) fun read _ => openCount_leaves

theorem counts_stranded (h : flags.skip cs = []) {read : Nat × Option Nat × List Char} :
    counts flags (cs ++ closing n) ≠ .ok read := by
  rw [counts_eq]
  rcases skip_append_or flags cs n with hlong | ⟨-, hlong⟩
  · rw [hlong, h, List.nil_append, count_closing]
    rintro ⟨⟩
  · rw [hlong, count_nil]
    rintro ⟨⟩

theorem counts_extends :
    Extends n (fun _ => False) (counts flags cs) (counts flags (cs ++ closing n)) := by
  rw [counts_eq, counts_eq]
  rcases skip_append_or flags cs n with hskip | ⟨hskip, hlong⟩
  · rw [hskip]
    refine count_carries.bind (fun read _ => openCount_extends) ?_
    rintro ⟨least, left⟩ hends
    cases hends
    exact .errors
  · rw [hskip, hlong, count_nil]
    exact .errors

theorem skipLazy_suffix : skipLazy cs <:+ cs := by
  unfold skipLazy
  split
  · exact List.suffix_cons _ _
  · exact List.suffix_refl _

theorem skipLazy_append : skipLazy (cs ++ closing n) = skipLazy cs ++ closing n := by
  cases cs with
  | nil => rfl
  | cons c more =>
    by_cases hc : c = '?'
    · subst hc
      rfl
    · have hplain : ∀ {left : List Char}, skipLazy (c :: left) = c :: left := by
        intro left
        unfold skipLazy
        split
        · next hmark => exact absurd (List.cons.inj hmark).1 hc
        · rfl
      rw [List.cons_append, hplain, hplain]
      rfl

theorem flagItems_leaves {on dangling : Bool} {seen : List Char} :
    Leaves cs (flagItems flags on dangling seen cs) := by
  induction cs generalizing flags on dangling seen with
  | nil => exact .error
  | cons c cs ih =>
    have hnext := List.suffix_cons c cs
    unfold flagItems
    split
    · split
      · exact .error
      · exact .ok hnext
    · split
      · split
        · exact ih.of_suffix hnext
        · exact .error
      · split
        · exact ih.of_suffix hnext
        · exact .error

theorem flagItems_extends {on dangling : Bool} {seen : List Char} :
    Extends n Spent (flagItems flags on dangling seen cs)
      (flagItems flags on dangling seen (cs ++ closing n)) := by
  induction cs generalizing flags on dangling seen with
  | nil =>
    intro read hread
    simp only [List.nil_append, closing, flagItems] at hread
    cases dangling with
    | true => cases hread
    | false =>
      cases hread
      exact spent_dollars n
  | cons c cs ih =>
    rw [List.cons_append]
    unfold flagItems
    split
    · split
      · exact .errors
      · exact rfl
    · split
      · split
        · exact ih
        · exact .errors
      · split
        · exact ih
        · exact .errors

end State

namespace Token

/-- Nothing more can be read while a group is open. -/
def Doomed (flags : Flags) (n : Nat) (read : Token × List Char) : Prop :=
  read.1 ≠ .close ∧ (Spent read ∨ (∃ condition, read.1 = .atom (.look condition)) ∧
    ∃ more, read.2 = '\x7b' :: (more ++ closing n) ∧ flags.skip more = [])

theorem named_leaves : Leaves cs (named cs) := by
  have hdrop := List.dropWhile_suffix (l := cs) fun c : Char => decide (c ≠ '>')
  unfold named
  split
  · exact .error
  · exact .error
  · next c left first others hleft hname =>
    rw [hleft] at hdrop
    split
    · exact .error
    · exact .ok ((List.suffix_cons c left).trans hdrop)

theorem named_extends : Extends n (fun _ => False) (named cs) (named (cs ++ closing n)) := by
  have hstop : ∀ n, '>' ∉ closing n := by simp [closing, List.mem_replicate]
  unfold named
  rw [dropWhile_closing hstop]
  by_cases hsome : cs.dropWhile (· ≠ '>') = []
  · rw [if_pos hsome, hsome]
    exact .errors
  · rw [if_neg hsome, takeWhile_closing hsome]
    generalize cs.dropWhile (· ≠ '>') = left at hsome ⊢
    generalize cs.takeWhile (· ≠ '>') = name
    cases left with
    | nil => exact absurd rfl hsome
    | cons c left =>
      cases name with
      | nil => exact .errors
      | cons first others =>
        dsimp only [List.cons_append]
        split
        · exact .errors
        · exact rfl

theorem flagged_leaves : Leaves cs (flagged flags cs) := by
  refine .bind State.flagItems_leaves ?_
  rintro ⟨flags', any, mark, left⟩ -
  dsimp only
  split
  · exact .ok (List.suffix_refl _)
  · split
    · exact .ok (List.suffix_refl _)
    · exact .error

theorem flagged_extends :
    Extends n (Doomed flags n) (flagged flags cs) (flagged flags (cs ++ closing n)) := by
  refine .bind State.flagItems_extends ?_ ?_
  · rintro ⟨flags', any, mark, left⟩ -
    simp only [Remainder.extend]
    split
    · exact rfl
    · split
      · exact rfl
      · exact .errors
  · rintro ⟨flags', any, mark, left⟩ hspent read hread
    dsimp only at hread
    split at hread
    · cases hread
      exact ⟨nofun, .inl hspent⟩
    · split at hread
      · cases hread
        exact ⟨nofun, .inl hspent⟩
      · cases hread

theorem opening_of_append : Opening.of (cs ++ closing n) =
    match Opening.of cs with
    | .look => .look
    | .named left => .named (left ++ closing n)
    | .alone => .flagged (closing n)
    | .flagged left => .flagged (left ++ closing n)
    | .plain => .plain := by
  cases cs with
  | nil => rfl
  | cons c more =>
    by_cases hc : c = '?'
    · subst hc
      cases more with
      | nil => rfl
      | cons d left =>
        simp only [List.cons_append, Opening.of, head?_append (show '=' ≠ ')' by decide),
          head?_append (show '!' ≠ ')' by decide),
          head?_append (show '<' ≠ ')' by decide)]
        split
        · rfl
        · split
          · split
            · rfl
            · rfl
          · split
            · next hletter =>
              cases left with
              | nil => cases hletter.2
              | cons e left => rfl
            · rfl
    · have hplain : ∀ {left : List Char}, Opening.of (c :: left) = .plain := by
        intro left
        unfold Opening.of
        split
        · next hmark => exact absurd (List.cons.inj hmark).1 hc
        · rfl
      rw [List.cons_append, hplain, hplain]

theorem opening_of_suffix {left : List Char}
    (h : Opening.of cs = .named left ∨ Opening.of cs = .flagged left) : left <:+ cs := by
  unfold Opening.of at h
  split at h
  · split at h
    · rcases h with h | h <;> cases h
    · next c more =>
      have hmore : more <:+ '?' :: c :: more :=
        (List.suffix_cons c more).trans (List.suffix_cons _ _)
      split at h
      · rcases h with h | h <;> cases h
      · split at h
        · split at h
          · rcases h with h | h <;> cases h
          · rcases h with h | h <;> cases h
            exact hmore
        · split at h
          · rcases h with h | h <;> cases h
            exact (List.tail_suffix more).trans hmore
          · rcases h with h | h <;> cases h
            exact List.suffix_cons _ _
  · rcases h with h | h <;> cases h

theorem opening_leaves : Leaves cs (opening flags cs) := by
  have hskip := skip_suffix flags cs
  unfold opening
  split
  · exact .error
  · next left hof => exact named_leaves.of_suffix ((opening_of_suffix (.inl hof)).trans hskip)
  · exact .error
  · next left hof => exact flagged_leaves.of_suffix ((opening_of_suffix (.inr hof)).trans hskip)
  · exact .ok hskip

theorem opening_settles :
    Settles (Doomed flags) (opening flags cs) fun n => opening flags (cs ++ closing n) := by
  unfold opening
  rcases skip_append_all flags cs with hskip | ⟨hskip, hlong⟩
  · refine .of_extends fun n => ?_
    rw [hskip, opening_of_append]
    cases Opening.of (flags.skip cs) with
    | look => exact .errors
    | named left => exact named_extends.mono fun _ h => h.elim
    | alone =>
      -- The mark is followed by the parenthesis, which would set no flag.
      exact .errors
    | flagged left => exact flagged_extends
    | plain => exact rfl
  · simp only [hskip, hlong]
    exact .inr ⟨rfl, fun _ => rfl⟩

theorem next_leaves {c : Char} : Leaves cs (next flags c cs) := by
  unfold next
  split
  · exact opening_leaves
  · exact .ok (List.suffix_refl _)
  · exact .ok (List.suffix_refl _)
  · refine .bind Bracket.opened_leaves fun opened _ => ?_
    refine .bind Bracket.read_leaves fun read _ => ?_
    exact .ok (List.suffix_refl _)
  · exact .ok State.skipLazy_suffix
  · exact .ok State.skipLazy_suffix
  · exact .ok State.skipLazy_suffix
  · refine .bind State.counts_leaves fun read _ => ?_
    exact .ok (State.skipLazy_suffix.trans (skip_suffix flags _))
  · refine .bind Atom.escape_leaves fun read _ => ?_
    exact .ok (List.suffix_refl _)
  · exact .ok (List.suffix_refl _)
  · exact .ok (List.suffix_refl _)
  · exact .ok (List.suffix_refl _)
  · exact .ok (List.suffix_refl _)

/-- With closing text behind it the same token is read, or something doomed. -/
theorem next_settles (c : Char) :
    Settles (Doomed flags) (next flags c cs) fun n => next flags c (cs ++ closing n) := by
  have hplain : ∀ {token : Token},
      Settles (Doomed flags) (.ok (token, cs)) fun n => .ok (token, cs ++ closing n) :=
    fun {token} => .inl fun _ => rfl
  have hlazy : ∀ {token : Token}, Settles (Doomed flags) (.ok (token, State.skipLazy cs))
      fun n => .ok (token, State.skipLazy (cs ++ closing n)) :=
    fun {token} => .of_extends fun n => by rw [State.skipLazy_append]; exact rfl
  unfold next
  split
  · exact opening_settles
  · exact hplain
  · exact hplain
  · refine .of_extends fun n => .bind Bracket.opened_extends (fun opened _ => ?_) ?_
    · refine .bind (Bracket.read_extends (Nat.lt_succ_self _) (Nat.lt_succ_self _))
        (fun read _ => ?_) fun read h => h.elim
      exact rfl
    · intro opened hunclosed read hread
      cases hclass : Bracket.read flags (opened.2.length + 1) [] opened.1 opened.2 with
      | error fault =>
        simp only [hclass] at hread
        cases hread
      | ok a => exact absurd hclass (Bracket.read_unclosed hunclosed)
  · exact hlazy
  · exact hlazy
  · exact hlazy
  · have hcounts : ∀ n, Extends n (fun _ => False) (State.counts flags cs)
        (State.counts flags (cs ++ closing n)) := fun n => State.counts_extends
    cases hread : State.counts flags cs with
    | ok read =>
      obtain ⟨least, most, left⟩ := read
      have hlonger : ∀ n, State.counts flags (cs ++ closing n) =
          .ok (least, most, left ++ closing n) := fun n => by
        have := hcounts n
        rwa [hread] at this
      simp only [hlonger]
      rcases skip_append_all flags left with hskip | ⟨hskip, hlong⟩
      · refine .inl fun n => ?_
        simp only [bind, Except.bind, hskip, State.skipLazy_append]
        rfl
      · refine .inr ⟨by rw [hskip]; rfl, fun n => ?_⟩
        simp only [bind, Except.bind, hskip, hlong]
        rfl
    | error fault =>
      intro n read hlong
      cases hread' : State.counts flags (cs ++ closing n) with
      | ok a =>
        have := hcounts n
        rw [hread] at this
        exact (this a hread').elim
      | error fault' =>
        simp only [hread'] at hlong
        cases hlong
  · refine .of_extends fun n => .bind Atom.escape_extends (fun read _ => rfl) ?_
    rintro ⟨a, left⟩ hstranded read hread
    cases hread
    refine ⟨nofun, ?_⟩
    rcases hstranded with hspent | ⟨⟨condition, hlook⟩, hmore⟩
    · exact .inl hspent
    · cases hlook
      exact .inr ⟨⟨condition, rfl⟩, hmore⟩
  · exact hplain
  · exact hplain
  · exact hplain
  · exact hplain

end Token
end Rulebook.Pattern
