import Rulebook.Arguments
import Rulebook.Json.Token
import Rulebook.Proofs.NumberText

/-!
# Values are known by their text

Distinct values are written differently, whatever follows them in a list or an object. The first
character of a text tells the form of the value, a quoted text is read back as it was, and a number
does not run on into what follows it.
-/
namespace Rulebook

namespace Json

namespace Token

variable {before : Option (List Char)}

theorem stringRest_letter {letter c : Char} (hc : escapeValue? letter = some c)
    (rest : List Char) :
    stringRest before ('\\' :: letter :: rest) = stringRest (prepend (some c) before) rest := by
  have hletter : letter ≠ 'u' := by
    rintro rfl
    cases hc
  rw [stringRest.eq_4, hc]
  · intro _ _ _ _ _ _ _ _ _ h
    exact absurd h hletter
  · intro _ _ _ _ _ h
    exact absurd h hletter

/-- A unit below the halves of pairs stands for itself, even in front of another unit. -/
theorem stringRest_unit {a b c d : Char} {unit : Nat} (hunit : hexValue4? a b c d = some unit)
    (hlow : unit < 0xd800) (rest : List Char) :
    stringRest before ('\\' :: 'u' :: a :: b :: c :: d :: rest) =
      stringRest (prepend (some (Char.ofNat unit)) before) rest := by
  have hchar : unitChar? unit = some (Char.ofNat unit) := by
    rw [unitChar?, if_neg (by omega)]
  have hpair : ∀ low, pairChar? unit low = none := by
    intro low
    rw [pairChar?, if_neg (by omega)]
  by_cases hnext : ∃ e f g h more, rest = '\\' :: 'u' :: e :: f :: g :: h :: more
  · obtain ⟨e, f, g, h, more, rfl⟩ := hnext
    have hnone : (hexValue4? e f g h).bind (pairChar? unit) = none := by
      cases hexValue4? e f g h with
      | none => rfl
      | some low => exact hpair low
    rw [stringRest.eq_2, hunit]
    dsimp only
    rw [hnone, hchar]
  · rw [stringRest.eq_3, hunit]
    · dsimp only
      rw [hchar]
    · intro e f g h more heq
      exact hnext ⟨e, f, g, h, more, heq⟩

theorem stringRest_plain {c : Char} (hquote : c ≠ '"') (hslash : c ≠ '\\') (hc : ¬ c.toNat < 32)
    (rest : List Char) :
    stringRest before (c :: rest) = stringRest (prepend (some c) before) rest := by
  rw [stringRest.eq_5, if_neg (by tauto)]
  · exact hquote
  · intro _ _ _ _ _ _ _ _ _ h
    exact absurd h hslash
  · intro _ _ _ _ _ h
    exact absurd h hslash
  · intro _ _ h
    exact absurd h hslash

theorem hexValue4_of_lt : ∀ n < 32,
    hexValue4? '0' '0' (hexDigit (n / 16)) (hexDigit (n % 16)) = some n := by
  decide

/-- Every character is read back, escaped or not. -/
theorem stringRest_escaped (c : Char) (rest : List Char) :
    stringRest before (escaped c ++ rest) = stringRest (prepend (some c) before) rest := by
  have hcode : ∀ {n : Nat}, c.toNat = n → c = Char.ofNat n := by
    rintro _ rfl
    exact (Char.ofNat_toNat c).symm
  by_cases hquote : c = '"'
  · subst hquote
    exact stringRest_letter rfl rest
  by_cases hslash : c = '\\'
  · subst hslash
    exact stringRest_letter rfl rest
  rw [escaped, if_neg hquote, if_neg hslash]
  split
  · next h => exact stringRest_letter (by rw [h]; rfl) rest
  split
  · next h => exact stringRest_letter (by rw [h]; rfl) rest
  split
  · next h => exact stringRest_letter (by rw [h]; rfl) rest
  split
  · next h => exact stringRest_letter (by rw [hcode h]; rfl) rest
  split
  · next h => exact stringRest_letter (by rw [hcode h]; rfl) rest
  split
  · next h =>
    refine (stringRest_unit (hexValue4_of_lt c.toNat h) (by omega) rest).trans ?_
    rw [Char.ofNat_toNat]
  · next h => exact stringRest_plain hquote hslash h rest

theorem stringRest_flatMap (cs before rest : List Char) :
    stringRest (some before) (cs.flatMap escaped ++ '"' :: rest) =
      some (some (cs.reverse ++ before), rest) := by
  induction cs generalizing before with
  | nil => rw [List.flatMap_nil, List.nil_append, stringRest.eq_1]; rfl
  | cons c cs ih =>
    rw [List.flatMap_cons, List.append_assoc, stringRest_escaped]
    have hrest := ih (c :: before)
    rw [List.reverse_cons, List.append_assoc]
    exact hrest

/-- What is quoted is the token of its text. -/
theorem first_quoted (text : String) (rest : List Char) :
    first? (quoted text ++ rest) = some (.string (some text), rest) := by
  have hread := stringRest_flatMap text.toList [] rest
  rw [List.append_nil] at hread
  have hquoted : quoted text ++ rest = '"' :: (text.toList.flatMap escaped ++ '"' :: rest) := by
    rw [quoted, List.cons_append, List.cons_append, List.append_assoc]
    rfl
  rw [hquoted]
  change Option.map _ (stringRest (some []) (text.toList.flatMap escaped ++ '"' :: rest)) = _
  rw [hread]
  simp

end Token

/-- Quoted texts end by themselves. -/
theorem quoted_inj {a b : String} {r s : List Char} (h : quoted a ++ r = quoted b ++ s) :
    a = b ∧ r = s := by
  have hread := congrArg Token.first? h
  rw [Token.first_quoted, Token.first_quoted] at hread
  cases hread
  exact ⟨rfl, rfl⟩

def form : Json → Nat
  | .null => 0
  | .bool _ => 1
  | .number _ => 2
  | .string _ => 3
  | .array _ => 4
  | .object _ => 5

/-- The form of the values whose text starts with a character; `]` starts none. -/
def formOf : Char → Nat
  | 'n' => 0
  | 't' | 'f' => 1
  | '"' => 3
  | '[' => 4
  | '\x7b' => 5
  | ']' => 6
  | _ => 2

theorem formOf_number {c : Char} (h : IsNumberChar c) : formOf c = 2 := by
  unfold formOf
  unfold IsNumberChar at h
  split <;> first | rfl | exact absurd h (by decide)

theorem exists_first (v : Json) : ∃ c rest, v.chars = c :: rest ∧ formOf c = v.form := by
  cases v with
  | null => exact ⟨_, _, rfl, rfl⟩
  | bool b => cases b <;> exact ⟨_, _, rfl, rfl⟩
  | number n =>
    obtain ⟨c, rest, hchars⟩ := List.exists_cons_of_ne_nil n.chars_ne_nil
    have hc : IsNumberChar c := n.chars_number c (by rw [hchars]; exact List.mem_cons_self)
    exact ⟨c, rest, hchars, formOf_number hc⟩
  | string s => exact ⟨_, _, rfl, rfl⟩
  | array items => cases items <;> exact ⟨_, _, rfl, rfl⟩
  | object members => cases members <;> exact ⟨_, _, rfl, rfl⟩

theorem form_eq {v w : Json} {r s : List Char} (h : v.chars ++ r = w.chars ++ s) :
    v.form = w.form := by
  obtain ⟨c, rest, hv, hc⟩ := exists_first v
  obtain ⟨d, rest', hw, hd⟩ := exists_first w
  rw [hv, hw] at h
  rw [← hc, ← hd, (List.cons.inj h).1]

/-- No value starts with the bracket that closes an array. -/
theorem chars_ne_close (v : Json) (r s : List Char) : v.chars ++ r ≠ ']' :: s := by
  intro h
  obtain ⟨c, rest, hv, hc⟩ := exists_first v
  rw [hv] at h
  obtain ⟨rfl, -⟩ := List.cons.inj h
  cases v <;> cases hc

/-- What may follow a value: nothing, a comma, or a bracket that closes. -/
def Ends (rest : List Char) : Prop := ∀ c ∈ rest.head?, c ∈ [',', ']', '\x7d']

theorem Ends.not_number {rest : List Char} (h : Ends rest) :
    ∀ c ∈ rest.head?, ¬ IsNumberChar c := by
  have hnone : ∀ c ∈ [',', ']', '\x7d'], ¬ IsNumberChar c := by
    simp [IsNumberChar]
  intro c hc
  exact hnone c (h c hc)

theorem ends_items (items : List Json) (r : List Char) : Ends (itemsChars items ++ r) := by
  intro c hc
  cases items <;> (cases hc; decide)

theorem ends_members (members : List (String × Json)) (r : List Char) :
    Ends (membersChars members ++ r) := by
  intro c hc
  cases members <;> (cases hc; decide)

theorem itemsChars_append (v : Json) (rest : List Json) (r : List Char) :
    itemsChars (v :: rest) ++ r = ',' :: (v.chars ++ (itemsChars rest ++ r)) := by
  rw [itemsChars, List.cons_append, List.cons_append, List.append_assoc]

theorem membersChars_append (name : String) (v : Json) (rest : List (String × Json))
    (r : List Char) :
    membersChars ((name, v) :: rest) ++ r =
      ',' :: (quoted name ++ ':' :: (v.chars ++ (membersChars rest ++ r))) := by
  simp only [membersChars, List.cons_append, List.append_assoc]

theorem array_chars_append (v : Json) (rest : List Json) (r : List Char) :
    (array (v :: rest)).chars ++ r = '[' :: (v.chars ++ (itemsChars rest ++ r)) := by
  rw [chars, List.cons_append, List.cons_append, List.append_assoc]

theorem object_chars_append (name : String) (v : Json) (rest : List (String × Json))
    (r : List Char) :
    (object ((name, v) :: rest)).chars ++ r =
      '\x7b' :: (quoted name ++ ':' :: (v.chars ++ (membersChars rest ++ r))) := by
  simp only [chars, List.cons_append, List.append_assoc]

/-- The first item is told from the end of an array without a comma before it. -/
theorem items_eq_of_array {xs ys : List Json} {r s : List Char}
    (h : (array xs).chars ++ r = (array ys).chars ++ s) :
    itemsChars xs ++ r = itemsChars ys ++ s := by
  cases xs with
  | nil =>
    cases ys with
    | nil => exact congrArg _ (List.append_cancel_left h)
    | cons y ys =>
      rw [array_chars_append] at h
      exact absurd (List.cons.inj h).2.symm (chars_ne_close y _ _)
  | cons x xs =>
    rw [array_chars_append] at h
    cases ys with
    | nil => exact absurd (List.cons.inj h).2 (chars_ne_close x _ _)
    | cons y ys =>
      rw [array_chars_append] at h
      rw [itemsChars_append, itemsChars_append, (List.cons.inj h).2]

theorem members_eq_of_object {xs ys : List (String × Json)} {r s : List Char}
    (h : (object xs).chars ++ r = (object ys).chars ++ s) :
    membersChars xs ++ r = membersChars ys ++ s := by
  cases xs with
  | nil =>
    cases ys with
    | nil => exact congrArg _ (List.append_cancel_left h)
    | cons member ys =>
      rw [object_chars_append] at h
      cases (List.cons.inj h).2
  | cons member xs =>
    rw [object_chars_append] at h
    cases ys with
    | nil => cases (List.cons.inj h).2
    | cons member' ys =>
      rw [object_chars_append] at h
      rw [membersChars_append, membersChars_append, (List.cons.inj h).2]

mutual

/-- Where one text goes on as two values would, the values are the same and so is what follows
them. -/
theorem chars_append_inj : ∀ (v : Json) {w : Json} {r s : List Char}, Ends r → Ends s →
    v.chars ++ r = w.chars ++ s → v = w ∧ r = s
  | .null, w, r, s, _, _, h => by
    have hform := form_eq h
    cases w with
    | null => exact ⟨rfl, List.append_cancel_left h⟩
    | _ => cases hform
  | .bool b, w, r, s, _, _, h => by
    have hform := form_eq h
    cases w with
    | bool b' =>
      obtain rfl : b = b' := by
        cases b <;> cases b' <;> first | rfl | cases h
      exact ⟨rfl, List.append_cancel_left h⟩
    | _ => cases hform
  | .number n, w, r, s, hr, hs, h => by
    have hform := form_eq h
    cases w with
    | number n' =>
      obtain ⟨hn, hrest⟩ := append_inj_of_stop n.chars_number n'.chars_number hr.not_number
        hs.not_number h
      rw [Number.chars_inj hn]
      exact ⟨rfl, hrest⟩
    | _ => cases hform
  | .string a, w, r, s, _, _, h => by
    have hform := form_eq h
    cases w with
    | string b =>
      obtain ⟨rfl, hrest⟩ := quoted_inj h
      exact ⟨rfl, hrest⟩
    | _ => cases hform
  | .array xs, w, r, s, _, _, h => by
    have hform := form_eq h
    cases w with
    | array ys =>
      obtain ⟨rfl, hrest⟩ := items_append_inj xs (items_eq_of_array h)
      exact ⟨rfl, hrest⟩
    | _ => cases hform
  | .object xs, w, r, s, _, _, h => by
    have hform := form_eq h
    cases w with
    | object ys =>
      obtain ⟨rfl, hrest⟩ := members_append_inj xs (members_eq_of_object h)
      exact ⟨rfl, hrest⟩
    | _ => cases hform

theorem items_append_inj : ∀ (xs : List Json) {ys : List Json} {r s : List Char},
    itemsChars xs ++ r = itemsChars ys ++ s → xs = ys ∧ r = s
  | [], [], r, s, h => ⟨rfl, List.append_cancel_left h⟩
  | [], y :: ys, r, s, h => by cases h
  | x :: xs, [], r, s, h => by cases h
  | x :: xs, y :: ys, r, s, h => by
    rw [itemsChars_append, itemsChars_append] at h
    obtain ⟨rfl, hitems⟩ :=
      chars_append_inj x (ends_items xs r) (ends_items ys s) (List.cons.inj h).2
    obtain ⟨rfl, hrest⟩ := items_append_inj xs hitems
    exact ⟨rfl, hrest⟩

theorem members_append_inj : ∀ (xs : List (String × Json)) {ys : List (String × Json)}
    {r s : List Char}, membersChars xs ++ r = membersChars ys ++ s → xs = ys ∧ r = s
  | [], [], r, s, h => ⟨rfl, List.append_cancel_left h⟩
  | [], (_, _) :: _, r, s, h => by cases h
  | (_, _) :: _, [], r, s, h => by cases h
  | (name, x) :: xs, (name', y) :: ys, r, s, h => by
    rw [membersChars_append, membersChars_append] at h
    obtain ⟨rfl, hvalue⟩ := quoted_inj (List.cons.inj h).2
    obtain ⟨rfl, hmembers⟩ :=
      chars_append_inj x (ends_members xs r) (ends_members ys s) (List.cons.inj hvalue).2
    obtain ⟨rfl, hrest⟩ := members_append_inj xs hmembers
    exact ⟨rfl, hrest⟩

end

theorem text_inj {v w : Json} (h : v.text = w.text) : v = w := by
  have hchars : v.chars = w.chars := String.ofList_injective h
  have hends : Ends [] := by
    intro c hc
    cases hc
  exact (chars_append_inj v hends hends (congrArg (· ++ []) hchars)).1

end Json

/-- A key tells the arguments of a call, all of them and nothing else. -/
theorem Arguments.key_inj {arguments other : Arguments} (h : arguments.key = other.key) :
    arguments = other :=
  Json.object.inj (Json.text_inj h)

end Rulebook
