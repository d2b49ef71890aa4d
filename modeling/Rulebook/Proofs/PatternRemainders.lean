import Rulebook.Pattern.Reader

/-!
# Reading with more text behind

Parts of a pattern are read from the front of a text, and what is left is read on. If a closing
parenthesis and dollar signs are put behind the text, a part that can be read is read as before.
One that cannot be read still cannot, or else takes the parenthesis for a part of itself.
-/
namespace Rulebook.Pattern

open Text

/-- A parenthesis and so many dollar signs. -/
def closing (n : Nat) : List Char := ')' :: List.replicate n '$'

/-- Results of reading, with the text that is left. -/
class Remainder (α : Type) where
  rest : α → List Char
  extend : α → List Char → α

namespace Remainder

instance : Remainder (List Char) := ⟨id, fun cs more => cs ++ more⟩

instance {α β : Type} [Remainder β] : Remainder (α × β) :=
  ⟨fun read => rest read.2, fun read more => (read.1, extend read.2 more)⟩

end Remainder

open Remainder (rest extend)

variable {α β : Type} [Remainder α] [Remainder β] {cs more : List Char} {n : Nat} {flags : Flags}

/-- What is left stands at the end of the text. -/
def Leaves (cs : List Char) (result : Except Fault α) : Prop :=
  ∀ a, result = .ok a → rest a <:+ cs

/-- The second result is the first one with the closing text behind it. If the first is a failure,
the second is one too or something of some kind. -/
def Extends (n : Nat) (P : α → Prop) (result result' : Except Fault α) : Prop :=
  match result with
  | .ok a => result' = .ok (extend a (closing n))
  | .error _ => ∀ a, result' = .ok a → P a

/-- The second result is the first one with the closing text behind it, unless the text has ended
for both. -/
def Carried (n : Nat) (read read' : α) : Prop :=
  read' = extend read (closing n) ∨ rest read = [] ∧ read' = read

/-- Like `Extends`, but a comment may take the closing text. -/
def Carries (n : Nat) (P : α → Prop) (result result' : Except Fault α) : Prop :=
  match result with
  | .ok a => ∃ a', result' = .ok a' ∧ Carried n a a'
  | .error _ => ∀ a, result' = .ok a → P a

/-- Every closing text is left behind what is read, or every one belongs to a comment. Where nothing
can be read alone, only something of some kind can with a closing text behind. -/
def Settles (P : Nat → α → Prop) (result : Except Fault α) (result' : Nat → Except Fault α) :
    Prop :=
  match result with
  | .ok a => (∀ n, result' n = .ok (extend a (closing n))) ∨ rest a = [] ∧ ∀ n, result' n = .ok a
  | .error _ => ∀ n a, result' n = .ok a → P n a

/-- The parenthesis has been read. -/
def Spent (read : α) : Prop := ∀ c ∈ rest read, c = '$'

theorem Leaves.ok {a : α} (h : rest a <:+ cs) : Leaves cs (.ok a) := by
  rintro _ ⟨⟩
  exact h

theorem Leaves.error {fault : Fault} : Leaves cs (.error fault : Except Fault α) := by
  rintro _ ⟨⟩

theorem Leaves.of_suffix {result : Except Fault α} (h : Leaves more result) (hmore : more <:+ cs) :
    Leaves cs result :=
  fun a ha => (h a ha).trans hmore

theorem Leaves.bind {first : Except Fault α} {next : α → Except Fault β} (h : Leaves cs first)
    (hnext : ∀ a, first = .ok a → Leaves (rest a) (next a)) : Leaves cs (first >>= next) := by
  cases hfirst : first with
  | error fault => exact .error
  | ok a => exact (hnext a hfirst).of_suffix (h a hfirst)

theorem Extends.error {P : α → Prop} {fault : Fault} {result : Except Fault α}
    (h : ∀ a, result ≠ .ok a) : Extends n P (.error fault) result :=
  fun a ha => absurd ha (h a)

theorem Extends.errors {P : α → Prop} {fault fault' : Fault} :
    Extends n P (.error fault : Except Fault α) (.error fault') :=
  .error fun _ h => nomatch h

theorem Extends.bind {P : α → Prop} {Q : β → Prop} {first first' : Except Fault α}
    {next next' : α → Except Fault β} (h : Extends n P first first')
    (hnext : ∀ a, first = .ok a → Extends n Q (next a) (next' (extend a (closing n))))
    (hpast : ∀ a, P a → ∀ b, next' a = .ok b → Q b) :
    Extends n Q (first >>= next) (first' >>= next') := by
  cases hfirst : first with
  | ok a =>
    rw [hfirst] at h
    cases h
    exact hnext a hfirst
  | error fault =>
    rw [hfirst] at h
    intro b hb
    cases hfirst' : first' with
    | ok a =>
      rw [hfirst'] at hb
      exact hpast a (h a hfirst') b hb
    | error fault' =>
      rw [hfirst'] at hb
      cases hb

theorem Extends.carries {P : α → Prop} {result result' : Except Fault α}
    (h : Extends n P result result') : Carries n P result result' := by
  cases result with
  | ok a => exact ⟨_, h, .inl rfl⟩
  | error fault => exact h

theorem Settles.of_extends {P : Nat → α → Prop} {result : Except Fault α}
    {result' : Nat → Except Fault α} (h : ∀ n, Extends n (P n) result (result' n)) :
    Settles P result result' := by
  cases result with
  | ok a => exact .inl h
  | error fault => exact h

theorem Carries.bind {P : β → Prop} {first first' : Except Fault α}
    {next next' : α → Except Fault β} (h : Carries n (fun _ => False) first first')
    (hnext : ∀ a, first = .ok a → Extends n P (next a) (next' (extend a (closing n))))
    (hended : ∀ a, rest a = [] → Extends n P (next a) (next' a)) :
    Extends n P (first >>= next) (first' >>= next') := by
  cases hfirst : first with
  | ok a =>
    rw [hfirst] at h
    obtain ⟨a', rfl, rfl | ⟨hends, rfl⟩⟩ := h
    · exact hnext a hfirst
    · exact hended a' hends
  | error fault =>
    rw [hfirst] at h
    intro b hb
    cases hfirst' : first' with
    | ok a => exact (h a hfirst').elim
    | error fault' =>
      rw [hfirst'] at hb
      cases hb

theorem Leaves.attach {γ : Type} (made : Except Fault γ) :
    Leaves cs (do pure (← made, cs) : Except Fault (γ × List Char)) := by
  cases made with
  | error fault => exact .error
  | ok a => exact .ok (List.suffix_refl _)

theorem Extends.attach {γ : Type} {P : γ × List Char → Prop} (made : Except Fault γ) :
    Extends n P (do pure (← made, cs) : Except Fault (γ × List Char))
      (do pure (← made, cs ++ closing n)) := by
  cases made with
  | error fault => exact .errors
  | ok a => exact rfl

theorem Extends.mono {P Q : α → Prop} {result result' : Except Fault α}
    (h : Extends n P result result') (hPQ : ∀ a, P a → Q a) : Extends n Q result result' := by
  cases result with
  | ok a => exact h
  | error fault => exact fun a ha => hPQ _ (h a ha)

theorem spent_dollars (n : Nat) : Spent (List.replicate n '$') :=
  fun _ hc => (List.mem_replicate.mp hc).2

theorem Spent.of_leaves {read : α} {result : Except Fault β} {b : β} (h : Spent read)
    (hleaves : Leaves (rest read) result) (hb : result = .ok b) : Spent b :=
  fun c hc => h c ((hleaves b hb).subset hc)

/-! ### Blanks and comments -/

theorem skipFrom_suffix (comment : Bool) (cs : List Char) : Flags.skipFrom comment cs <:+ cs := by
  induction cs generalizing comment with
  | nil => cases comment <;> exact List.suffix_refl _
  | cons c rest ih =>
    have hrest := List.suffix_cons c rest
    cases comment with
    | true => exact (ih _).trans hrest
    | false =>
      unfold Flags.skipFrom
      split
      · exact (ih _).trans hrest
      · split
        · exact (ih _).trans hrest
        · exact List.suffix_refl _

theorem skip_suffix (flags : Flags) (cs : List Char) : flags.skip cs <:+ cs := by
  unfold Flags.skip
  split
  · exact skipFrom_suffix false cs
  · exact List.suffix_refl _

theorem suffix_of_skip {c : Char} (h : flags.skip cs = c :: more) : more <:+ cs :=
  (List.suffix_cons c more).trans (h ▸ skip_suffix flags cs)

theorem length_of_skip {c : Char} (h : flags.skip cs = c :: more) : more.length < cs.length :=
  (h ▸ skip_suffix flags cs).length_le

theorem skipFrom_closing (n : Nat) :
    Flags.skipFrom true (closing n) = [] ∧ Flags.skipFrom false (closing n) = closing n := by
  refine ⟨?_, rfl⟩
  have hdollars : Flags.skipFrom true (List.replicate n '$') = [] := by
    induction n with
    | zero => rfl
    | succ n ih => exact ih
  exact hdollars

theorem skipFrom_append (comment : Bool) (cs : List Char) :
    (∃ c more, Flags.skipFrom comment cs = c :: more ∧
      ∀ n, Flags.skipFrom comment (cs ++ closing n) = c :: (more ++ closing n)) ∨
    (Flags.skipFrom comment cs = [] ∧
      ((∀ n, Flags.skipFrom comment (cs ++ closing n) = closing n) ∨
        ∀ n, Flags.skipFrom comment (cs ++ closing n) = [])) := by
  induction cs generalizing comment with
  | nil =>
    cases comment with
    | true => exact .inr ⟨rfl, .inr fun n => (skipFrom_closing n).1⟩
    | false => exact .inr ⟨rfl, .inl fun n => (skipFrom_closing n).2⟩
  | cons c rest ih =>
    cases comment with
    | true => exact ih _
    | false =>
      simp only [List.cons_append, Flags.skipFrom]
      split
      · exact ih _
      · split
        · exact ih _
        · exact .inl ⟨c, rest, rfl, fun _ => rfl⟩

/-- Blanks are skipped up to the same character. If there is none, the closing text comes next,
unless it belongs to a comment. -/
theorem skip_append (flags : Flags) (cs : List Char) :
    (∃ c more, flags.skip cs = c :: more ∧
      ∀ n, flags.skip (cs ++ closing n) = c :: (more ++ closing n)) ∨
    (flags.skip cs = [] ∧
      ((∀ n, flags.skip (cs ++ closing n) = closing n) ∨
        ∀ n, flags.skip (cs ++ closing n) = [])) := by
  unfold Flags.skip
  split
  · exact skipFrom_append false cs
  · cases cs with
    | nil => exact .inr ⟨rfl, .inl fun _ => rfl⟩
    | cons c more => exact .inl ⟨c, more, rfl, fun _ => rfl⟩

theorem skip_append_all (flags : Flags) (cs : List Char) :
    (∀ n, flags.skip (cs ++ closing n) = flags.skip cs ++ closing n) ∨
      flags.skip cs = [] ∧ ∀ n, flags.skip (cs ++ closing n) = [] := by
  rcases skip_append flags cs with ⟨c, more, hskip, hlong⟩ | ⟨hskip, hlong | hlong⟩
  · exact .inl fun n => by rw [hskip, hlong]; rfl
  · exact .inl fun n => by rw [hskip, hlong]; rfl
  · exact .inr ⟨hskip, hlong⟩

theorem skip_append_or (flags : Flags) (cs : List Char) (n : Nat) :
    flags.skip (cs ++ closing n) = flags.skip cs ++ closing n ∨
      flags.skip cs = [] ∧ flags.skip (cs ++ closing n) = [] :=
  (skip_append_all flags cs).imp (fun hlong => hlong n) fun ⟨hskip, hlong⟩ => ⟨hskip, hlong n⟩

/-! ### Searching for a character -/

theorem append_closing_ne_nil : cs ++ closing n ≠ [] := by
  simp [closing]

theorem ne_cons_append {c : Char} (hc : c ≠ ')') (h : ∀ more, cs ≠ c :: more) (more : List Char) :
    cs ++ closing n ≠ c :: more := by
  cases cs with
  | nil =>
    intro hclosing
    cases hclosing
    exact hc rfl
  | cons d left =>
    intro hlong
    cases hlong
    exact h left rfl

theorem dropWhile_isBlank_append (cs : List Char) (n : Nat) :
    (cs ++ closing n).dropWhile Text.isBlank = cs.dropWhile Text.isBlank ++ closing n := by
  rw [List.dropWhile_append]
  split
  · next hnone =>
    rw [List.isEmpty_iff.mp hnone]
    rfl
  · rfl

theorem head?_append {c : Char} (hc : c ≠ ')') :
    (cs ++ closing n).head? = some c ↔ cs.head? = some c := by
  cases cs with
  | nil => simp [closing, Ne.symm hc]
  | cons d cs => rfl

theorem dropWhile_closing {stop : Char} (hstop : ∀ n, stop ∉ closing n) (cs : List Char) (n : Nat) :
    (cs ++ closing n).dropWhile (· ≠ stop) =
      if cs.dropWhile (· ≠ stop) = [] then [] else cs.dropWhile (· ≠ stop) ++ closing n := by
  have hnone : (closing n).dropWhile (· ≠ stop) = [] := by
    have hall : ∀ (cs : List Char), stop ∉ cs → cs.dropWhile (· ≠ stop) = [] := by
      intro cs hcs
      induction cs with
      | nil => rfl
      | cons c cs ih =>
        obtain ⟨hc, hcs⟩ := not_or.mp (mt List.mem_cons.mpr hcs)
        rw [List.dropWhile_cons_of_pos (by simpa using Ne.symm hc)]
        exact ih hcs
    exact hall _ (hstop n)
  rw [List.dropWhile_append, hnone]
  simp only [List.isEmpty_iff]

theorem takeWhile_closing {stop : Char} (h : cs.dropWhile (· ≠ stop) ≠ []) :
    (cs ++ more).takeWhile (· ≠ stop) = cs.takeWhile (· ≠ stop) := by
  rw [List.takeWhile_append, if_neg]
  intro hlength
  have hparts := congrArg List.length
    (List.takeWhile_append_dropWhile (p := fun c : Char => decide (c ≠ stop)) (l := cs))
  rw [List.length_append, hlength] at hparts
  exact h (List.length_eq_zero_iff.mp (by omega))

/-! ### Escapes -/

namespace Atom

theorem hexDigits_leaves (count k : Nat) : Leaves cs (hexDigits flags count k cs) := by
  induction count generalizing k cs with
  | zero => exact .ok (List.suffix_refl _)
  | succ count ih =>
    unfold hexDigits
    split
    · exact .error
    · next c more hskip =>
      split
      · exact (ih _).of_suffix (suffix_of_skip hskip)
      · exact .error

theorem hexDigits_extends (count k : Nat) :
    Extends n Spent (hexDigits flags count k cs) (hexDigits flags count k (cs ++ closing n)) := by
  induction count generalizing k cs with
  | zero => exact rfl
  | succ count ih =>
    unfold hexDigits
    rcases skip_append flags cs with ⟨c, more, hskip, hlong⟩ | ⟨hskip, hlong | hlong⟩
    · simp only [hskip, hlong]
      split
      · exact ih _
      · exact .errors
    · rw [hskip, hlong]
      exact .errors
    · rw [hskip, hlong]
      exact .errors

theorem hexDigits_nil {count k : Nat} :
    hexDigits flags (count + 1) k [] = .error .badEscape := by
  have hskip : flags.skip [] = [] := List.suffix_nil.mp (skip_suffix flags [])
  rw [hexDigits, hskip]

theorem hexBraced_nil {fuel : Nat} {k : Option Nat} (h : flags.skip cs = []) :
    hexBraced flags (fuel + 1) k cs = .error .badEscape := by
  unfold hexBraced
  rw [h]

theorem hexBraced_cons {fuel : Nat} {k : Option Nat} {c : Char} (h : flags.skip cs = c :: more) :
    hexBraced flags (fuel + 1) k cs =
      match if c = '\x7d' then k else none with
      | some m => .ok (m, more)
      | none =>
        match hexValue? c with
        | some v => hexBraced flags fuel (some (k.getD 0 * 16 + v)) more
        | none => .error .badEscape := by
  rw [hexBraced.eq_def]
  dsimp only
  rw [h]
  by_cases hc : c = '\x7d'
  · subst hc
    cases k <;> rfl
  · rw [if_neg hc]
    split
    · next hbrace => exact absurd (List.cons.inj hbrace).1 hc
    · next hcons _ =>
      cases hcons
      rfl
    · next hnil => cases hnil

theorem hexBraced_leaves (fuel : Nat) (k : Option Nat) : Leaves cs (hexBraced flags fuel k cs) := by
  induction fuel generalizing k cs with
  | zero => exact .error
  | succ fuel ih =>
    cases hskip : flags.skip cs with
    | nil =>
      rw [hexBraced_nil hskip]
      exact .error
    | cons c more =>
      rw [hexBraced_cons hskip]
      split
      · exact .ok (suffix_of_skip hskip)
      · split
        · exact (ih _).of_suffix (suffix_of_skip hskip)
        · exact .error

theorem hexBraced_extends {fuel fuel' : Nat} (k : Option Nat) (hfuel : cs.length < fuel)
    (hfuel' : (cs ++ closing n).length < fuel') :
    Extends n Spent (hexBraced flags fuel k cs) (hexBraced flags fuel' k (cs ++ closing n)) := by
  induction fuel generalizing k cs fuel' with
  | zero => omega
  | succ fuel ih =>
    obtain ⟨fuel', rfl⟩ := Nat.exists_eq_succ_of_ne_zero (Nat.ne_of_gt (Nat.zero_lt_of_lt hfuel'))
    rcases skip_append flags cs with ⟨c, more, hskip, hlong⟩ | ⟨hskip, hlong | hlong⟩
    · have hmore := length_of_skip hskip
      have hlonger := length_of_skip (hlong n)
      rw [hexBraced_cons hskip, hexBraced_cons (hlong n)]
      split
      · exact rfl
      · split
        · exact ih _ (by omega) (by omega)
        · exact .errors
    · rw [hexBraced_nil hskip, hexBraced_cons (hlong n)]
      exact .errors
    · rw [hexBraced_nil hskip, hexBraced_nil (hlong n)]
      exact .errors

/-- The code is checked after its digits. -/
def coded (flags : Flags) (count k : Nat) : Except Fault Atom := do
  if !flags.unicode ∧ count = 2 ∧ 128 ≤ k then throw .notText
  ofCode k

theorem hex_brace {count : Nat} (h : flags.skip cs = '\x7b' :: more) :
    hex flags count cs = (do
      let (k, left) ← hexBraced flags (more.length + 1) none more
      pure (← ofCode k, left)) := by
  unfold hex
  rw [h]
  rfl

theorem hex_digits {count : Nat} (h : ∀ more, flags.skip cs ≠ '\x7b' :: more) :
    hex flags count cs = (do
      let (k, left) ← hexDigits flags count 0 (flags.skip cs)
      pure (← coded flags count k, left)) := by
  unfold hex coded
  split
  · next hskip => exact absurd hskip (h _)
  · refine congrArg _ (funext fun read => ?_)
    dsimp only
    split <;> rfl

theorem hex_leaves (count : Nat) : Leaves cs (hex flags count cs) := by
  by_cases hbrace : ∃ more, flags.skip cs = '\x7b' :: more
  · obtain ⟨more, hskip⟩ := hbrace
    rw [hex_brace hskip]
    refine .bind ((hexBraced_leaves _ _).of_suffix (suffix_of_skip hskip)) fun read _ => ?_
    exact .attach _
  · rw [hex_digits (fun more hskip => hbrace ⟨more, hskip⟩)]
    refine .bind ((hexDigits_leaves _ _).of_suffix (skip_suffix flags cs)) fun read _ => ?_
    exact .attach _

theorem hex_extends (count : Nat) :
    Extends n Spent (hex flags (count + 1) cs) (hex flags (count + 1) (cs ++ closing n)) := by
  have hpast : ∀ (made : Nat → Except Fault Atom) (read : Nat × List Char), Spent read →
      ∀ b, (do pure (← made read.1, read.2) : Except Fault (Atom × List Char)) = .ok b → Spent b :=
    fun made read hspent b hb => hspent.of_leaves (.attach (made read.1)) hb
  rcases skip_append flags cs with ⟨c, more, hskip, hlong⟩ | ⟨hskip, hlong | hlong⟩
  · by_cases hc : c = '\x7b'
    · subst hc
      rw [hex_brace hskip, hex_brace (hlong n)]
      exact .bind (hexBraced_extends none (Nat.lt_succ_self _) (Nat.lt_succ_self _))
        (fun read _ => .attach _) (hpast ofCode)
    · have hplain : ∀ {cs more : List Char}, flags.skip cs = c :: more →
          ∀ more', flags.skip cs ≠ '\x7b' :: more' := by
        rintro cs more hskip more' hbrace
        cases hskip.symm.trans hbrace
        exact hc rfl
      rw [hex_digits (hplain hskip), hex_digits (hplain (hlong n)), hskip, hlong]
      exact .bind (hexDigits_extends _ _) (fun read _ => .attach _) (hpast _)
  · have hplain : ∀ more, flags.skip (cs ++ closing n) ≠ '\x7b' :: more := by
      rw [hlong]
      rintro _ ⟨⟩
    rw [hex_digits (by simp [hskip]), hex_digits hplain, hskip, hlong]
    exact .bind (hexDigits_extends _ _) (fun read _ => .attach _) (hpast _)
  · rw [hex_digits (by simp [hskip]), hex_digits (by simp [hlong]), hskip, hlong, hexDigits_nil]
    exact .errors

theorem edgeLetters_suffix (fuel : Nat) : (edgeLetters flags fuel cs).2 <:+ cs := by
  induction fuel generalizing cs with
  | zero => exact List.suffix_refl _
  | succ fuel ih =>
    unfold edgeLetters
    split
    · next c more =>
      split
      · exact (ih.trans (skip_suffix flags more)).trans (List.suffix_cons c more)
      · exact List.suffix_refl _
    · exact List.suffix_refl _

/-- The letters end at the same character, or with the text. -/
theorem edgeLetters_append {fuel fuel' : Nat} (hfuel : cs.length < fuel)
    (hfuel' : (cs ++ closing n).length < fuel') :
    edgeLetters flags fuel' (cs ++ closing n) =
        ((edgeLetters flags fuel cs).1, (edgeLetters flags fuel cs).2 ++ closing n) ∨
      (edgeLetters flags fuel cs).2 = [] ∧
        (edgeLetters flags fuel' (cs ++ closing n)).2 = [] := by
  induction fuel generalizing cs fuel' with
  | zero => omega
  | succ fuel ih =>
    obtain ⟨fuel', rfl⟩ := Nat.exists_eq_succ_of_ne_zero (Nat.ne_of_gt (Nat.zero_lt_of_lt hfuel'))
    cases cs with
    | nil => exact .inl rfl
    | cons c cs =>
      simp only [List.cons_append, edgeLetters, List.length_cons] at hfuel hfuel' ⊢
      split
      · have hskipped := (skip_suffix flags cs).length_le
        have hlonger := (skip_suffix flags (cs ++ closing n)).length_le
        rcases skip_append flags cs with ⟨d, more, hskip, hlong⟩ | ⟨hskip, hlong | hlong⟩
        · rw [hskip] at hskipped ⊢
          rw [hlong, ← List.cons_append] at hlonger ⊢
          rcases @ih (d :: more) fuel' (by omega) (by omega) with hsame | hends
          · exact .inl (by rw [hsame])
          · exact .inr hends
        · rw [hlong] at hlonger ⊢
          rw [hskip]
          rcases @ih [] fuel' (by simp; omega) (by simp; omega) with hsame | hends
          · rw [List.nil_append] at hsame
            exact .inl (by rw [hsame])
          · exact .inr hends
        · rw [hskip, hlong]
          exact .inr ⟨List.suffix_nil.mp (edgeLetters_suffix fuel),
            List.suffix_nil.mp (edgeLetters_suffix fuel')⟩
      · exact .inl rfl

/-- The side of an edge that a name in braces stands for. -/
def side (flags : Flags) (letters : List Char) : Except Fault Atom :=
  match String.ofList letters with
  | "start" => .ok (.look (.wordStart flags.unicode))
  | "end" => .ok (.look (.wordEnd flags.unicode))
  | "start-half" => .ok (.look (.noWordBefore flags.unicode))
  | "end-half" => .ok (.look (.noWordAfter flags.unicode))
  | _ => .error .badEscape

/-- The closing brace behind the name. -/
def sided (flags : Flags) (read : List Char × List Char) : Except Fault (Atom × List Char) :=
  match read with
  | (letters, '\x7d' :: left) => do pure (← side flags letters, left)
  | _ => .error .badEscape

/-- What follows `\b` and a brace. -/
def braced (flags : Flags) (cs : List Char) : Except Fault (Atom × List Char) :=
  match flags.skip cs with
  | [] => .error .badEscape
  | c :: more =>
    if edgeName c then sided flags (edgeLetters flags (more.length + 2) (c :: more))
    else .ok (.look (.wordEdge flags.unicode), '\x7b' :: cs)

theorem sided_plain {letters : List Char} (h : ∀ more, cs ≠ '\x7d' :: more) :
    sided flags (letters, cs) = .error .badEscape := by
  unfold sided
  split
  · next hread =>
    cases hread
    exact absurd rfl (h _)
  · rfl

theorem edge_brace : edge flags ('\x7b' :: cs) = braced flags cs := by
  have hside : ∀ letters more,
      (match String.ofList letters with
        | "start" => .ok (.look (.wordStart flags.unicode), more)
        | "end" => .ok (.look (.wordEnd flags.unicode), more)
        | "start-half" => .ok (.look (.noWordBefore flags.unicode), more)
        | "end-half" => .ok (.look (.noWordAfter flags.unicode), more)
        | _ => .error .badEscape : Except Fault (Atom × List Char)) =
      (do pure (← side flags letters, more)) := by
    intro letters more
    unfold side
    split <;> rfl
  unfold edge braced sided
  simp only
  cases flags.skip cs with
  | nil => rfl
  | cons c more =>
    dsimp only
    split
    · obtain ⟨letters, left⟩ := edgeLetters flags (more.length + 2) (c :: more)
      cases left with
      | nil => rfl
      | cons d left =>
        by_cases hd : d = '\x7d'
        · subst hd
          exact hside letters left
        · simp [hd]
    · rfl

theorem edge_plain (h : ∀ more, cs ≠ '\x7b' :: more) :
    edge flags cs = .ok (.look (.wordEdge flags.unicode), cs) := by
  unfold edge
  split
  · exact absurd rfl (h _)
  · rfl

theorem sided_leaves {letters : List Char} : Leaves cs (sided flags (letters, cs)) := by
  by_cases hbrace : ∃ more, cs = '\x7d' :: more
  · obtain ⟨more, rfl⟩ := hbrace
    exact (Leaves.attach (side flags letters)).of_suffix (List.suffix_cons _ more)
  · rw [sided_plain fun more h => hbrace ⟨more, h⟩]
    exact .error

theorem braced_leaves : Leaves ('\x7b' :: cs) (braced flags cs) := by
  have hbrace := List.suffix_cons '\x7b' cs
  unfold braced
  split
  · exact .error
  · next c more hskip =>
    split
    · have hends : (edgeLetters flags (more.length + 2) (c :: more)).2 <:+ flags.skip cs := by
        rw [hskip]
        exact edgeLetters_suffix _
      exact sided_leaves.of_suffix ((hends.trans (skip_suffix flags cs)).trans hbrace)
    · exact .ok (List.suffix_refl _)

theorem edge_leaves : Leaves cs (edge flags cs) := by
  by_cases hbrace : ∃ more, cs = '\x7b' :: more
  · obtain ⟨more, rfl⟩ := hbrace
    rw [edge_brace]
    exact braced_leaves
  · rw [edge_plain (fun more h => hbrace ⟨more, h⟩)]
    exact .ok (List.suffix_refl _)

end Atom

/-- The parenthesis has been read, or comes next where a count should stand. -/
def Stranded (flags : Flags) (n : Nat) (read : Atom × List Char) : Prop :=
  Spent read ∨ (∃ condition, read.1 = .look condition) ∧
    ∃ more, read.2 = '\x7b' :: (more ++ closing n) ∧ flags.skip more = []

namespace Atom

theorem sided_extends {P : Atom × List Char → Prop} {letters : List Char} :
    Extends n P (sided flags (letters, cs)) (sided flags (letters, cs ++ closing n)) := by
  by_cases hbrace : ∃ more, cs = '\x7d' :: more
  · obtain ⟨more, rfl⟩ := hbrace
    exact .attach (side flags letters)
  · have hplain : ∀ more, cs ≠ '\x7d' :: more := fun more h => hbrace ⟨more, h⟩
    rw [sided_plain hplain, sided_plain (ne_cons_append (by decide) hplain)]
    exact .errors

theorem braced_extends :
    Extends n (Stranded flags n) (braced flags cs) (braced flags (cs ++ closing n)) := by
  unfold braced
  rcases skip_append flags cs with ⟨d, more, hskip, hlong⟩ | ⟨hskip, hlong | hlong⟩
  · rw [hskip, hlong]
    dsimp only
    split
    · have hends : edgeLetters flags ((more ++ closing n).length + 2) (d :: more ++ closing n) =
            ((edgeLetters flags (more.length + 2) (d :: more)).1,
              (edgeLetters flags (more.length + 2) (d :: more)).2 ++ closing n) ∨
          (edgeLetters flags (more.length + 2) (d :: more)).2 = [] ∧
            (edgeLetters flags ((more ++ closing n).length + 2) (d :: more ++ closing n)).2 = [] :=
        edgeLetters_append (by simp) (by simp)
      rw [List.cons_append] at hends
      generalize edgeLetters flags (more.length + 2) (d :: more) = read at hends ⊢
      generalize edgeLetters flags ((more ++ closing n).length + 2)
        (d :: (more ++ closing n)) = read' at hends ⊢
      obtain ⟨letters, left⟩ := read
      obtain ⟨letters', left'⟩ := read'
      rcases hends with hsame | ⟨rfl, rfl⟩
      · cases hsame
        exact sided_extends
      · exact .errors
    · exact rfl
  · -- The parenthesis is no name, so the brace is left to be read as a count.
    rw [hskip, hlong]
    refine fun a ha => .inr ?_
    cases ha
    exact ⟨⟨_, rfl⟩, cs, rfl, hskip⟩
  · rw [hskip, hlong]
    exact .errors

theorem edge_extends :
    Extends n (Stranded flags n) (edge flags cs) (edge flags (cs ++ closing n)) := by
  by_cases hbrace : ∃ more, cs = '\x7b' :: more
  · obtain ⟨more, rfl⟩ := hbrace
    rw [List.cons_append, edge_brace, edge_brace]
    exact braced_extends
  · have hplain : ∀ more, cs ≠ '\x7b' :: more := fun more h => hbrace ⟨more, h⟩
    rw [edge_plain hplain, edge_plain (ne_cons_append (by decide) hplain)]
    exact rfl

/-- What an escape stands for, unless more text belongs to it. -/
def short (flags : Flags) (c : Char) : Except Fault Atom :=
  if c.isDigit then .error .backReference
  else if isEscapable c then .ok (.char c)
  else match c with
    | 'p' | 'P' => .error .unknownProperty
    | 'd' | 'D' | 's' | 'S' | 'w' | 'W' => .ok (.cls (named flags c))
    | 'a' => .ok (.char (Char.ofNat 7))
    | 'f' => .ok (.char (Char.ofNat 12))
    | 't' => .ok (.char '\t')
    | 'n' => .ok (.char '\n')
    | 'r' => .ok (.char '\r')
    | 'v' => .ok (.char (Char.ofNat 11))
    | 'A' => .ok (.look .textStart)
    | 'z' => .ok (.look .textEnd)
    | 'B' => .ok (.look (.noWordEdge flags.unicode))
    | '<' => .ok (.look (.wordStart flags.unicode))
    | '>' => .ok (.look (.wordEnd flags.unicode))
    | _ => .error .badEscape

theorem escape_cons (flags : Flags) (c : Char) :
    (∃ count, ∀ cs, escape flags (c :: cs) = hex flags (count + 1) cs) ∨
    (∀ cs, escape flags (c :: cs) = edge flags cs) ∨
    (∀ cs, escape flags (c :: cs) = do pure (← short flags c, cs)) := by
  by_cases hx : c = 'x'
  · exact .inl ⟨1, fun cs => by subst hx; rfl⟩
  by_cases hu : c = 'u'
  · exact .inl ⟨3, fun cs => by subst hu; rfl⟩
  by_cases hU : c = 'U'
  · exact .inl ⟨7, fun cs => by subst hU; rfl⟩
  by_cases hb : c = 'b'
  · exact .inr (.inl fun cs => by subst hb; rfl)
  refine .inr (.inr fun cs => ?_)
  unfold escape short
  dsimp only
  split
  · rfl
  · split
    · rfl
    · split <;> first | rfl | contradiction | (split <;> first | rfl | contradiction)

theorem escape_leaves : Leaves cs (escape flags cs) := by
  cases cs with
  | nil => exact .error
  | cons c cs =>
    have hrest := List.suffix_cons c cs
    rcases escape_cons flags c with ⟨count, h⟩ | h | h
    · rw [h]
      exact (hex_leaves _).of_suffix hrest
    · rw [h]
      exact edge_leaves.of_suffix hrest
    · rw [h]
      exact (Leaves.attach _).of_suffix hrest

theorem escape_extends :
    Extends n (Stranded flags n) (escape flags cs) (escape flags (cs ++ closing n)) := by
  cases cs with
  | nil =>
    have hparenthesis : escape flags (closing n) = .ok (.char ')', List.replicate n '$') := rfl
    rw [List.nil_append, hparenthesis]
    refine fun a ha => .inl ?_
    cases ha
    exact spent_dollars n
  | cons c cs =>
    rw [List.cons_append]
    rcases escape_cons flags c with ⟨count, h⟩ | h | h
    · rw [h, h]
      exact (hex_extends count).mono fun _ => .inl
    · rw [h, h]
      exact edge_extends
    · rw [h, h]
      exact .attach _

end Atom

end Rulebook.Pattern
