import Rulebook.Proofs.PatternTokens
import Rulebook.Proofs.Matching
import Rulebook.Proofs.Evaluation

/-!
# Patterns read inside a group

A text is read the same way whether or not groups are open around it, as long as it closes none of
them. `State.reading` says how reading ends, and what becomes of the closing text behind.
-/
namespace Rulebook.Pattern

variable {cs more : List Char} {n : Nat} {flags : Flags}

/-! ### Counts of repetitions -/

/-- No upper end lies below the lower one. -/
def Token.Counted : Token → Prop
  | .again least most => ∀ k, most = some k → least ≤ k
  | _ => True

theorem Token.opening_not_again {least : Nat} {most : Option Nat} {left : List Char} :
    opening flags cs ≠ .ok (.again least most, left) := by
  unfold opening named flagged
  intro h
  split at h
  · cases h
  · split at h
    · cases h
    · cases h
    · split at h <;> cases h
  · cases h
  · obtain ⟨⟨_, any, mark, _⟩, -, h⟩ := exists_of_bind_ok h
    dsimp only at h
    split at h
    · cases h
    · split at h <;> cases h
  · cases h

theorem State.bounded_counted {least most : Nat} {read : Nat × Option Nat × List Char}
    (h : bounded least most cs = .ok read) : ∀ k, read.2.1 = some k → read.1 ≤ k := by
  unfold bounded at h
  split at h
  · split at h
    · next hle =>
      cases h
      rintro k ⟨⟩
      exact hle
    · cases h
  · cases h

theorem State.counts_counted {read : Nat × Option Nat × List Char}
    (h : counts flags cs = .ok read) : ∀ k, read.2.1 = some k → read.1 ≤ k := by
  rw [counts_eq] at h
  obtain ⟨⟨least, left⟩, -, h⟩ := exists_of_bind_ok h
  dsimp only [openCount, upper] at h
  split at h
  · cases h
    rintro k ⟨⟩
    exact Nat.le_refl _
  · split at h
    · cases h
      exact nofun
    · obtain ⟨second, -, h⟩ := exists_of_bind_ok h
      exact bounded_counted h
  · cases h

theorem Token.next_counted {c : Char} {read : Token × List Char} (h : next flags c cs = .ok read) :
    read.1.Counted := by
  obtain ⟨token, left⟩ := read
  cases token with
  | again least most =>
    unfold next at h
    split at h
    · exact absurd h opening_not_again
    · cases h
    · cases h
    · obtain ⟨opened, -, h⟩ := exists_of_bind_ok h
      obtain ⟨read, -, h⟩ := exists_of_bind_ok h
      cases h
    · cases h
      rintro k ⟨⟩
      exact Nat.zero_le _
    · cases h
      exact nofun
    · cases h
      exact nofun
    · obtain ⟨read, hcounts, h⟩ := exists_of_bind_ok h
      cases h
      exact State.counts_counted hcounts
    · obtain ⟨read, -, h⟩ := exists_of_bind_ok h
      cases h
    · cases h
    · cases h
    · cases h
    · cases h
  | _ => exact trivial

theorem Piece.counted_sequence {pieces : List Piece} (h : ∀ piece ∈ pieces, piece.pattern.Counted) :
    (sequence pieces).pattern.Counted := by
  cases pieces with
  | nil => exact trivial
  | cons piece others =>
    cases others with
    | nil => exact h piece List.mem_cons_self
    | cons second others =>
      obtain ⟨hpiece, hothers⟩ := List.forall_mem_cons.mp h
      refine ⟨hpiece, ?_⟩
      clear h
      generalize second :: others = others at hothers
      induction others with
      | nil => exact trivial
      | cons q others ih =>
        obtain ⟨hq, hothers⟩ := List.forall_mem_cons.mp hothers
        exact ⟨hq, ih hothers⟩

theorem Piece.counted_choice {pieces : List Piece} (h : ∀ piece ∈ pieces, piece.pattern.Counted) :
    (choice pieces).pattern.Counted := by
  cases pieces with
  | nil => exact trivial
  | cons piece others =>
    cases others with
    | nil => exact h piece List.mem_cons_self
    | cons second others =>
      simp only [List.forall_mem_cons] at h
      obtain ⟨hpiece, hsecond, hothers⟩ := h
      refine ⟨hpiece, ?_⟩
      generalize second.pattern = p at hsecond ⊢
      induction others generalizing p with
      | nil => exact hsecond
      | cons q others ih =>
        obtain ⟨hq, hothers⟩ := List.forall_mem_cons.mp hothers
        exact ih hothers _ ⟨hsecond, hq⟩

namespace Level

variable {level : Level}

def Counted (level : Level) : Prop :=
  ∀ piece ∈ level.branches ++ level.pieces, piece.pattern.Counted

theorem Counted.start {number : Option Nat} : (start flags number).Counted :=
  fun _ hpiece => nomatch hpiece

theorem Counted.pieces (h : level.Counted) : ∀ piece ∈ level.pieces, piece.pattern.Counted :=
  fun piece hpiece => h piece (List.mem_append_right _ hpiece)

theorem Counted.replace (h : level.Counted) {pieces : List Piece}
    (hpieces : ∀ piece ∈ pieces, piece.pattern.Counted) :
    ({ level with pieces := pieces } : Level).Counted := by
  intro piece hpiece
  rcases List.mem_append.mp hpiece with hbranch | hnew
  · exact h piece (List.mem_append_left _ hbranch)
  · exact hpieces piece hnew

theorem Counted.add (h : level.Counted) {piece : Piece} (hpiece : piece.pattern.Counted) :
    (level.add piece).Counted :=
  h.replace (List.forall_mem_cons.mpr ⟨hpiece, h.pieces⟩)

theorem Counted.branch (h : level.Counted) : level.branch.Counted := by
  intro piece hpiece
  rw [Level.branch, List.append_nil] at hpiece
  rcases List.mem_cons.mp hpiece with rfl | hbranch
  · exact Piece.counted_sequence fun q hq => h.pieces q (List.mem_reverse.mp hq)
  · exact h piece (List.mem_append_left _ hbranch)

theorem Counted.close (h : level.Counted) : level.close.pattern.Counted :=
  Piece.counted_choice fun piece hpiece =>
    h.branch piece (List.mem_append_left _ (List.mem_reverse.mp hpiece))

end Level

namespace State

variable {s s' : State} {base : List Level} {token : Token}

/-! ### What a token does -/

/-- A token opens a group, adds to the level that is open, or closes it. -/
theorem take_cases (h : s.take token = .ok s') :
    (∃ number, s'.level = .start s.flags number ∧ s'.outer = s.level :: s.outer) ∨
    ((∃ branches pieces, s'.level = { s.level with branches := branches, pieces := pieces }) ∧
      s'.outer = s.outer ∧ (s.level.Counted → token.Counted → s'.level.Counted)) ∨
    (token = .close ∧ ∃ parent outer piece, s.outer = parent :: outer ∧
      s'.level = parent.add piece ∧ s'.outer = outer ∧
      (s.level.Counted → piece.pattern.Counted)) := by
  have hadd : ∀ (s : State) (piece : Piece), piece.pattern.Counted →
      (∃ branches pieces,
        (s.add piece).level = { s.level with branches := branches, pieces := pieces }) ∧
      (s.add piece).outer = s.outer ∧
      (s.level.Counted → token.Counted → (s.add piece).level.Counted) :=
    fun s piece hpiece => ⟨⟨_, _, rfl⟩, rfl, fun hlevel _ => hlevel.add hpiece⟩
  cases token with
  | capture name =>
    cases name with
    | none =>
      cases h
      exact .inl ⟨_, rfl, rfl⟩
    | some name =>
      simp only [take] at h
      split at h
      · cases h
      · cases h
        exact .inl ⟨_, rfl, rfl⟩
  | group flags =>
    cases h
    exact .inl ⟨_, rfl, rfl⟩
  | flags flags =>
    cases h
    exact .inr (.inl (hadd { s with flags := flags } _ trivial))
  | close =>
    cases houter : s.outer with
    | nil => simp [take, closeGroup, houter] at h
    | cons parent outer =>
      simp only [take, closeGroup, houter] at h
      cases h
      exact .inr (.inr ⟨rfl, parent, outer, _, rfl, rfl, rfl, fun hlevel => hlevel.close⟩)
  | bar =>
    cases h
    exact .inr (.inl ⟨⟨_, _, rfl⟩, rfl, fun hlevel _ => hlevel.branch⟩)
  | atom a =>
    have hatom : ∃ p, s' = s.add (.leaf p) ∧ p.Counted := by
      cases a with
      | char c =>
        simp only [take, addAtom] at h
        split at h
        · cases h
        · cases h
          exact ⟨_, rfl, trivial⟩
      | cls a =>
        simp only [take, addAtom] at h
        cases hcls : checkedClass s.flags a with
        | error fault =>
          rw [hcls] at h
          cases h
        | ok a =>
          rw [hcls] at h
          cases h
          exact ⟨_, rfl, trivial⟩
      | look condition =>
        cases h
        exact ⟨_, rfl, trivial⟩
    obtain ⟨p, rfl, hp⟩ := hatom
    exact .inr (.inl (hadd s _ hp))
  | cls a depth =>
    cases h
    exact .inr (.inl (hadd s _ trivial))
  | again least most =>
    simp only [take, repeatLast] at h
    split at h
    · next piece pieces hpieces =>
      split at h
      · cases h
        refine .inr (.inl ⟨⟨_, _, rfl⟩, rfl, fun hlevel hcount => hlevel.replace ?_⟩)
        obtain ⟨hpiece, hothers⟩ := List.forall_mem_cons.mp (hpieces ▸ hlevel.pieces)
        exact List.forall_mem_cons.mpr ⟨⟨hpiece, hcount⟩, hothers⟩
      · cases h
    · cases h

/-- Only a closing parenthesis leaves a group. -/
theorem outer_of_take (h : s.take token = .ok s') (hclose : token ≠ .close)
    (houter : s.outer ≠ []) : s'.outer ≠ [] := by
  rcases take_cases h with ⟨_, -, h⟩ | ⟨-, h, -⟩ | ⟨hclosed, -⟩
  · rw [h]
    exact List.cons_ne_nil _ _
  · rw [h]
    exact houter
  · exact absurd hclosed hclose

/-- The flags and the number of the outermost level. -/
def ground (s : State) : Flags × Option Nat :=
  (s.outer.map fun level => (level.flags, level.number)).getLastD (s.level.flags, s.level.number)

theorem ground_of_take (h : s.take token = .ok s') : s'.ground = s.ground := by
  unfold ground
  rcases take_cases h with ⟨number, hlevel, houter⟩ | ⟨⟨branches, pieces, hlevel⟩, houter, -⟩ |
    ⟨-, parent, outer, piece, hparent, hlevel, houter, -⟩
  · rw [houter, List.map_cons, List.getLastD_cons]
  · rw [houter, hlevel]
  · rw [houter, hlevel, hparent, List.map_cons, List.getLastD_cons]
    rfl

def Counted (s : State) : Prop := ∀ level ∈ s.level :: s.outer, level.Counted

theorem counted_of_take (h : s.take token = .ok s') (htoken : token.Counted) (hs : s.Counted) :
    s'.Counted := by
  obtain ⟨hlevel, hothers⟩ := List.forall_mem_cons.mp hs
  suffices h : s'.level.Counted ∧ ∀ level ∈ s'.outer, level.Counted from
    List.forall_mem_cons.mpr h
  rcases take_cases h with ⟨number, hlevel', houter⟩ | ⟨-, houter, hcounted⟩ |
    ⟨-, parent, outer, piece, hparent, hlevel', houter, hpiece⟩
  · rw [hlevel', houter]
    exact ⟨.start, hs⟩
  · rw [houter]
    exact ⟨hcounted hlevel htoken, hothers⟩
  · rw [hparent] at hothers
    obtain ⟨hupper, hothers⟩ := List.forall_mem_cons.mp hothers
    rw [hlevel', houter]
    exact ⟨hupper.add (hpiece hlevel), hothers⟩

/-- The state with more groups open on the outside. -/
def under (s : State) (base : List Level) : State := { s with outer := s.outer ++ base }

/-- Groups on the outside are not touched, unless one of them is closed. -/
theorem take_under (h : token ≠ .close ∨ s.outer ≠ []) :
    (s.under base).take token = (s.take token).map (·.under base) := by
  cases token with
  | capture name =>
    cases name with
    | none => rfl
    | some name =>
      have hnames : (s.under base).names = s.names := rfl
      by_cases hname : s.names.contains name = true <;> simp only [take, hnames, hname] <;> rfl
  | group flags => rfl
  | flags flags => rfl
  | close =>
    cases houter : s.outer with
    | nil => simp [houter] at h
    | cons parent outer => simp [take, closeGroup, under, houter, Except.map]
  | bar => rfl
  | atom a =>
    have hflags : (s.under base).flags = s.flags := rfl
    cases a with
    | char c =>
      simp only [take, addAtom, hflags]
      split <;> rfl
    | cls a =>
      simp only [take, addAtom, hflags]
      cases checkedClass s.flags a <;> rfl
    | look condition => rfl
  | cls a depth => rfl
  | again least most =>
    have hlevel : (s.under base).level = s.level := rfl
    simp only [take, repeatLast, hlevel]
    split
    · split <;> rfl
    · rfl

theorem take_close (h : s.outer = []) : s.take .close = .error .unopenedGroup := by
  simp [take, closeGroup, h]

/-! ### The run -/

/-- What reading on gives, with a step for each character. -/
def result (s : State) (cs : List Char) : Except Fault Piece := read (cs.length + 1) s cs

theorem read_eq_read {fuel fuel' : Nat} (h : cs.length < fuel) (h' : cs.length < fuel') :
    read fuel s cs = read fuel' s cs := by
  induction fuel generalizing s cs fuel' with
  | zero => omega
  | succ fuel ih =>
    obtain ⟨fuel', rfl⟩ := Nat.exists_eq_succ_of_ne_zero (Nat.ne_of_gt (Nat.zero_lt_of_lt h'))
    cases hskip : s.flags.skip cs with
    | nil => rw [read_nil hskip, read_nil hskip]
    | cons c more =>
      rw [read_cons hskip, read_cons hskip]
      cases hnext : Token.next s.flags c more with
      | error fault => rfl
      | ok token =>
        have hmore := length_of_skip hskip
        have hleft : token.2.length ≤ more.length := (Token.next_leaves token hnext).length_le
        simp only [bind, Except.bind]
        cases s.take token.1 with
        | error fault => rfl
        | ok s => exact ih (by omega) (by omega)

theorem result_nil (h : s.flags.skip cs = []) : s.result cs = s.finish := read_nil h

theorem result_cons {c : Char} (h : s.flags.skip cs = c :: more) :
    s.result cs = (do
      let (token, left) ← Token.next s.flags c more
      (← s.take token).result left) := by
  unfold result
  rw [read_cons h]
  cases hnext : Token.next s.flags c more with
  | error fault => rfl
  | ok token =>
    have hmore := length_of_skip h
    have hleft : token.2.length ≤ more.length := (Token.next_leaves token hnext).length_le
    simp only [bind, Except.bind]
    cases s.take token.1 with
    | error fault => rfl
    | ok s => exact read_eq_read (by omega) (by omega)

theorem result_step {c : Char} {left : List Char} (hskip : s.flags.skip cs = c :: more)
    (hnext : Token.next s.flags c more = .ok (token, left)) (htake : s.take token = .ok s') :
    s.result cs = s'.result left := by
  rw [result_cons hskip, hnext]
  simp only [bind, Except.bind, htake]

theorem skip_of_visible {c : Char} (hblank : Text.isBlank c = false) (hsharp : c ≠ '#') :
    flags.skip (c :: cs) = c :: cs := by
  unfold Flags.skip
  split
  · simp [Flags.skipFrom, hblank, hsharp]
  · rfl

theorem result_dollar : s.result ('$' :: cs) =
    (s.add (.leaf (.look (Token.lineEnd s.flags)))).result cs := by
  have hskip : s.flags.skip ('$' :: cs) = '$' :: cs := skip_of_visible rfl (by decide)
  exact result_step hskip rfl rfl

theorem finish_of_outer (h : s.outer ≠ []) : s.finish = .error .unclosedGroup := by
  unfold finish
  split
  · rfl
  · next houter => exact absurd houter h

/-- Dollar signs close no group. -/
theorem result_dollars (hcs : ∀ c ∈ cs, c = '$') (houter : s.outer ≠ []) {piece : Piece} :
    s.result cs ≠ .ok piece := by
  induction cs generalizing s with
  | nil =>
    have hskip : s.flags.skip [] = [] := List.suffix_nil.mp (skip_suffix s.flags [])
    rw [result_nil hskip, finish_of_outer houter]
    exact nofun
  | cons c cs ih =>
    obtain ⟨hc, hmore⟩ := List.forall_mem_cons.mp hcs
    subst hc
    rw [result_dollar]
    exact ih hmore houter

theorem result_doomed {left : List Char} (h : Token.Doomed s.flags n (token, left))
    (htake : s.take token = .ok s') (houter : s.outer ≠ []) {piece : Piece} :
    s'.result left ≠ .ok piece := by
  obtain ⟨hclose, hspent | ⟨⟨condition, hlook⟩, more, hleft, hskip⟩⟩ := h
  -- Either only dollar signs are left, or a brace behind which no count can be read.
  · exact result_dollars hspent (outer_of_take htake hclose houter)
  · cases hlook
    cases hleft
    cases htake
    intro hresult
    have hbrace : s.flags.skip ('\x7b' :: (more ++ closing n)) = '\x7b' :: (more ++ closing n) :=
      skip_of_visible rfl (by decide)
    rw [result_cons (s := s.add _) hbrace] at hresult
    cases hcounts : counts s.flags (more ++ closing n) with
    | ok read => exact absurd hcounts (counts_stranded hskip)
    | error fault =>
      have hnext : Token.next s.flags '\x7b' (more ++ closing n) = .error fault := by
        simp only [Token.next, hcounts]
        rfl
      change ((Token.next s.flags '\x7b' (more ++ closing n)) >>= _) = _ at hresult
      rw [hnext] at hresult
      cases hresult

/-- How reading ends, and what becomes of closing text if other groups are open around. -/
inductive Reading (s : State) (cs : List Char) : Prop
  /-- The closing text comes next. -/
  | closes (s' : State) (hground : s'.ground = s.ground) (hcounted : s.Counted → s'.Counted)
    (halone : s.result cs = s'.finish)
    (hinside : ∀ n base, (s.under base).result (cs ++ closing n) =
      (s'.under base).result (closing n))
  /-- The closing text belongs to a comment. -/
  | comments (s' : State) (hground : s'.ground = s.ground) (hcounted : s.Counted → s'.Counted)
    (halone : s.result cs = s'.finish)
    (hinside : ∀ n base, (s.under base).result (cs ++ closing n) = (s'.under base).finish)
  | fails (halone : ∀ piece, s.result cs ≠ .ok piece)
    (hinside : ∀ n base piece, base ≠ [] → (s.under base).result (cs ++ closing n) ≠ .ok piece)
  /-- A parenthesis closes a group around. -/
  | leaves (halone : s.result cs = .error .unopenedGroup)

theorem under_outer (hbase : base ≠ []) : (s.under base).outer ≠ [] :=
  fun h => hbase (List.append_eq_nil_iff.mp h).2

namespace Reading

variable {c : Char} {left : List Char}

/-- No token can be read: with the parenthesis behind it one can, but then the group stays open. -/
theorem unread {fault : Fault} (hskip : s.flags.skip cs = c :: more)
    (hlong : ∀ n, s.flags.skip (cs ++ closing n) = c :: (more ++ closing n))
    (hnext : Token.next s.flags c more = .error fault) : Reading s cs := by
  have hsettles := @Token.next_settles more s.flags c
  rw [hnext] at hsettles
  refine .fails (fun p hp => ?_) fun n base p hbase hp => ?_
  · rw [result_cons hskip, hnext] at hp
    cases hp
  · rw [result_cons (s := s.under base) (hlong n)] at hp
    obtain ⟨read, hread, hp⟩ := exists_of_bind_ok hp
    obtain ⟨s', htake, hp⟩ := exists_of_bind_ok hp
    exact result_doomed (s := s.under base) (hsettles n read hread) htake (under_outer hbase) hp

/-- The token does not fit in. -/
theorem refused {fault : Fault} (hskip : s.flags.skip cs = c :: more)
    (hlong : ∀ n, s.flags.skip (cs ++ closing n) = c :: (more ++ closing n))
    (hnext : Token.next s.flags c more = .ok (token, left))
    (hnext' : ∀ n, ∃ left', Token.next s.flags c (more ++ closing n) = .ok (token, left'))
    (hinner : token ≠ .close ∨ s.outer ≠ []) (htake : s.take token = .error fault) :
    Reading s cs := by
  refine .fails (fun p hp => ?_) fun n base p hbase hp => ?_
  · rw [result_cons hskip, hnext] at hp
    simp only [bind, Except.bind, htake] at hp
    cases hp
  · have hflags : (s.under base).flags = s.flags := rfl
    obtain ⟨left', hnext'⟩ := hnext' n
    rw [result_cons (s := s.under base) (hlong n), hflags, hnext'] at hp
    simp only [bind, Except.bind, take_under hinner, htake] at hp
    cases hp

theorem result_under {left' : List Char} (hlong : s.flags.skip (cs ++ closing n) = c :: more)
    (hnext : Token.next s.flags c more = .ok (token, left'))
    (hinner : token ≠ .close ∨ s.outer ≠ []) (htake : s.take token = .ok s') (base : List Level) :
    (s.under base).result (cs ++ closing n) = (s'.under base).result left' := by
  refine result_step (s := s.under base) hlong hnext ?_
  rw [take_under hinner, htake]
  rfl

theorem step (hskip : s.flags.skip cs = c :: more)
    (hlong : ∀ n, s.flags.skip (cs ++ closing n) = c :: (more ++ closing n))
    (hnext : Token.next s.flags c more = .ok (token, left))
    (hnext' : ∀ n, Token.next s.flags c (more ++ closing n) = .ok (token, left ++ closing n))
    (hinner : token ≠ .close ∨ s.outer ≠ []) (htake : s.take token = .ok s')
    (h : Reading s' left) : Reading s cs := by
  have halone := result_step hskip hnext htake
  have hinside := fun n => result_under (hlong n) (hnext' n) hinner htake
  have hground := ground_of_take htake
  have hcounted := counted_of_take htake (Token.next_counted hnext)
  cases h with
  | closes last hground' hcounted' halone' hinside' =>
    exact .closes last (hground'.trans hground) (fun h => hcounted' (hcounted h))
      (halone.trans halone') fun n base => (hinside n base).trans (hinside' n base)
  | comments last hground' hcounted' halone' hinside' =>
    exact .comments last (hground'.trans hground) (fun h => hcounted' (hcounted h))
      (halone.trans halone') fun n base => (hinside n base).trans (hinside' n base)
  | fails halone' hinside' =>
    refine .fails (fun p => ?_) fun n base p hbase => ?_
    · rw [halone]
      exact halone' p
    · rw [hinside]
      exact hinside' n base p hbase
  | leaves halone' => exact .leaves (halone.trans halone')

/-- A comment behind the token runs to the end of the text. -/
theorem last (hskip : s.flags.skip cs = c :: more)
    (hlong : ∀ n, s.flags.skip (cs ++ closing n) = c :: (more ++ closing n))
    (hnext : Token.next s.flags c more = .ok (token, []))
    (hnext' : ∀ n, Token.next s.flags c (more ++ closing n) = .ok (token, []))
    (hinner : token ≠ .close ∨ s.outer ≠ []) (htake : s.take token = .ok s') : Reading s cs := by
  have hnil : s'.flags.skip [] = [] := List.suffix_nil.mp (skip_suffix s'.flags [])
  have hcounted := counted_of_take htake (Token.next_counted hnext)
  refine .comments s' (ground_of_take htake) hcounted ?_ fun n base => ?_
  · exact (result_step hskip hnext htake).trans (result_nil hnil)
  · exact (result_under (hlong n) (hnext' n) hinner htake base).trans (result_nil hnil)

end Reading

theorem reading (s : State) (cs : List Char) : Reading s cs := by
  rcases skip_append s.flags cs with ⟨c, more, hskip, hlong⟩ | ⟨hskip, hlong | hlong⟩
  · have hmore := length_of_skip hskip
    cases hnext : Token.next s.flags c more with
    | error fault => exact .unread hskip hlong hnext
    | ok read =>
      obtain ⟨token, left⟩ := read
      have hsettles := @Token.next_settles more s.flags c
      rw [hnext] at hsettles
      by_cases hinner : token ≠ .close ∨ s.outer ≠ []
      · cases htake : s.take token with
        | error fault =>
          refine .refused hskip hlong hnext (fun n => ?_) hinner htake
          exact hsettles.elim (fun hnext' => ⟨_, hnext' n⟩) fun ⟨_, hnext'⟩ => ⟨_, hnext' n⟩
        | ok s' =>
          rcases hsettles with hnext' | ⟨hends, hnext'⟩
          · have hleft : left.length ≤ more.length := (Token.next_leaves _ hnext).length_le
            exact .step hskip hlong hnext hnext' hinner htake (reading s' left)
          · cases hends
            exact .last hskip hlong hnext hnext' hinner htake
      · -- The token would close a group around, and alone there is none.
        obtain ⟨hclose, houter⟩ := not_or.mp hinner
        rw [not_not] at hclose houter
        refine .leaves ?_
        rw [result_cons hskip, hnext, hclose]
        simp only [bind, Except.bind, take_close houter]
  · refine .closes s rfl id (result_nil hskip) fun n base => ?_
    have hclosing : (s.under base).flags.skip (closing n) = closing n :=
      skip_of_visible rfl (by decide)
    rw [result_cons (s := s.under base) (hlong n), result_cons hclosing]
  · exact .comments s rfl id (result_nil hskip) fun n base => result_nil (hlong n)
termination_by cs.length

end State
end Rulebook.Pattern
