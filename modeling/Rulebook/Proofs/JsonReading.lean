import Rulebook.Json.Fields
import Rulebook.Json.Reader
import Rulebook.Proofs.NumberReading

/-!
# Values are read back

The text of a value whose numbers are kept falls into the tokens of the value, and these build its
draft. A need that covers the value leaves nothing of it out, so that the value comes back as it was,
as long as it does not nest too deep.
-/
namespace Rulebook.Json

mutual

/-- The numbers in a value. -/
def numbers : Json → List Number
  | .number n => [n]
  | .array items => itemsNumbers items
  | .object members => membersNumbers members
  | .null | .bool _ | .string _ => []

def itemsNumbers : List Json → List Number
  | [] => []
  | v :: rest => numbers v ++ itemsNumbers rest

def membersNumbers : List (String × Json) → List Number
  | [] => []
  | (_, v) :: rest => numbers v ++ membersNumbers rest

end

mutual

/-- The tokens that a value is written with. -/
def tokens : Json → List Token
  | .null => [.null]
  | .bool b => [.bool b]
  | .number n => [.number (some n)]
  | .string s => [.string (some s)]
  | .array [] => [.openArray, .closeArray]
  | .array (v :: rest) => .openArray :: (tokens v ++ itemsTokens rest)
  | .object [] => [.openObject, .closeObject]
  | .object ((name, v) :: rest) =>
    .openObject :: .string (some name) :: .colon :: (tokens v ++ membersTokens rest)

def itemsTokens : List Json → List Token
  | [] => [.closeArray]
  | v :: rest => .comma :: (tokens v ++ itemsTokens rest)

def membersTokens : List (String × Json) → List Token
  | [] => [.closeObject]
  | (name, v) :: rest =>
    .comma :: .string (some name) :: .colon :: (tokens v ++ membersTokens rest)

end

mutual

/-- What the text of a value writes: all of it, and nothing beyond the range of values. -/
def draft : Json → Draft
  | .null => .null
  | .bool b => .bool b
  | .number n => .number (some n)
  | .string s => .string (some s)
  | .array items => .array (itemsDraft items)
  | .object members => .object (membersDraft members)

def itemsDraft : List Json → List Draft
  | [] => []
  | v :: rest => draft v :: itemsDraft rest

def membersDraft : List (String × Json) → List (Option String × Draft)
  | [] => []
  | (name, v) :: rest => (some name, draft v) :: membersDraft rest

end

namespace Token

/-- A text starts with these tokens, and a scan goes on with what follows them. -/
structure Scans (cs : List Char) (tokens : List Token) (rest : List Char) : Prop where
  length_le : tokens.length + rest.length ≤ cs.length
  scan_eq : ∀ fuel, scanFrom (tokens.length + fuel) cs = (scanFrom fuel rest).map (tokens ++ ·)

namespace Scans

theorem append {cs more rest : List Char} {tokens others : List Token}
    (h : Scans cs tokens more) (hmore : Scans more others rest) :
    Scans cs (tokens ++ others) rest where
  length_le := by
    have hlength := h.length_le
    have hlength' := hmore.length_le
    rw [List.length_append]
    omega
  scan_eq fuel := by
    rw [List.length_append, Nat.add_assoc, h.scan_eq, hmore.scan_eq, Option.map_map]
    congr 1
    funext found
    exact (List.append_assoc _ _ _).symm

theorem one {c : Char} {cs rest : List Char} {token : Token} (hblank : isBlank c = false)
    (hfirst : first? (c :: cs) = some (token, rest)) (hlength : rest.length ≤ cs.length) :
    Scans (c :: cs) [token] rest where
  length_le := by
    simp only [List.length_cons, List.length_nil]
    omega
  scan_eq fuel := by
    have hdrop : (c :: cs).dropWhile isBlank = c :: cs :=
      List.dropWhile_cons_of_neg (by rw [hblank]; exact Bool.false_ne_true)
    rw [List.length_singleton, Nat.add_comm, scanFrom, hdrop]
    dsimp only
    rw [hfirst]
    rfl

theorem scan_eq_some {cs : List Char} {tokens : List Token} (h : Scans cs tokens []) :
    scan cs = some tokens := by
  obtain ⟨fuel, hfuel⟩ := Nat.exists_eq_add_of_le (Nat.le_of_add_right_le h.length_le)
  rw [scan, hfuel, h.scan_eq]
  cases fuel <;> simp [scanFrom]

theorem quoted (text : String) (rest : List Char) :
    Scans (Json.quoted text ++ rest) [.string (some text)] rest := by
  refine one rfl (first_quoted text rest) ?_
  have happend : (text.toList.flatMap escaped ++ ['"'] ++ rest).length =
      (text.toList.flatMap escaped ++ ['"']).length + rest.length := List.length_append
  exact happend ▸ Nat.le_add_left _ _

end Scans

theorem first_number {c : Char} {cs : List Char} (h : IsNumberChar c) :
    first? (c :: cs) = (number? (c :: cs)).map fun (n, rest) => (.number n, rest) := by
  unfold IsNumberChar at h
  unfold first?
  split <;> first
    | rfl
    | (next heq => cases heq; exact absurd h (by decide))

theorem not_blank {c : Char} (h : IsNumberChar c) : isBlank c = false := by
  have hblanks : ∀ c ∈ [' ', '\n', '\t', '\r'], ¬ IsNumberChar c := by
    simp [IsNumberChar]
  rw [Bool.eq_false_iff]
  intro hblank
  exact hblanks c (by simpa [isBlank, or_assoc] using hblank) h

/-- A number does not run on into what ends it. -/
theorem Scans.number {n : Number} (h : n.Kept) {rest : List Char} (hrest : Ends rest) :
    Scans (n.chars ++ rest) [.number (some n)] rest := by
  obtain ⟨c, cs, hchars⟩ := List.exists_cons_of_ne_nil n.chars_ne_nil
  have hc : IsNumberChar c := n.chars_number c (by rw [hchars]; exact List.mem_cons_self)
  have hread := number_chars h hrest
  rw [hchars, List.cons_append] at hread ⊢
  refine one (not_blank hc) ?_ ?_
  · rw [first_number hc, hread]
    rfl
  · rw [List.length_append]
    omega

end Token

open Token in
mutual

/-- The text of a value falls into its tokens, whatever follows. -/
theorem scans_chars : ∀ (v : Json) {rest : List Char}, (∀ n ∈ v.numbers, n.Kept) → Ends rest →
    Scans (v.chars ++ rest) v.tokens rest
  | .null, rest, _, _ => .one rfl rfl (by simp; omega)
  | .bool true, rest, _, _ => .one rfl rfl (by simp; omega)
  | .bool false, rest, _, _ => .one rfl rfl (by simp; omega)
  | .number n, rest, h, hrest => .number (h n List.mem_cons_self) hrest
  | .string s, rest, _, _ => .quoted s rest
  | .array [], rest, _, _ =>
    (Scans.one rfl rfl (Nat.le_refl _)).append (.one rfl rfl (Nat.le_refl _))
  | .array (v :: items), rest, h, _ => by
    obtain ⟨hv, hitems⟩ := List.forall_mem_append.mp h
    rw [array_chars_append]
    exact (Scans.one rfl rfl (Nat.le_refl _)).append
      ((scans_chars v hv (ends_items items rest)).append (scans_items items rest hitems))
  | .object [], rest, _, _ =>
    (Scans.one rfl rfl (Nat.le_refl _)).append (.one rfl rfl (Nat.le_refl _))
  | .object ((name, v) :: members), rest, h, _ => by
    obtain ⟨hv, hmembers⟩ := List.forall_mem_append.mp h
    rw [object_chars_append]
    exact (Scans.one rfl rfl (Nat.le_refl _)).append ((Scans.quoted name _).append
      ((Scans.one rfl rfl (Nat.le_refl _)).append
        ((scans_chars v hv (ends_members members rest)).append
          (scans_members members rest hmembers))))

theorem scans_items : ∀ (items : List Json) (rest : List Char),
    (∀ n ∈ itemsNumbers items, n.Kept) →
    Scans (itemsChars items ++ rest) (itemsTokens items) rest
  | [], rest, _ => .one rfl rfl (Nat.le_refl _)
  | v :: items, rest, h => by
    obtain ⟨hv, hitems⟩ := List.forall_mem_append.mp h
    rw [itemsChars_append]
    exact (Scans.one rfl rfl (Nat.le_refl _)).append
      ((scans_chars v hv (ends_items items rest)).append (scans_items items rest hitems))

theorem scans_members : ∀ (members : List (String × Json)) (rest : List Char),
    (∀ n ∈ membersNumbers members, n.Kept) →
    Scans (membersChars members ++ rest) (membersTokens members) rest
  | [], rest, _ => .one rfl rfl (Nat.le_refl _)
  | (name, v) :: members, rest, h => by
    obtain ⟨hv, hmembers⟩ := List.forall_mem_append.mp h
    rw [membersChars_append]
    exact (Scans.one rfl rfl (Nat.le_refl _)).append ((Scans.quoted name _).append
      ((Scans.one rfl rfl (Nat.le_refl _)).append
        ((scans_chars v hv (ends_members members rest)).append
          (scans_members members rest hmembers))))

end

theorem scan_text {v : Json} (h : ∀ n ∈ v.numbers, n.Kept) :
    Token.scan v.text.toList = some v.tokens := by
  have hscans := scans_chars v h Token.ends_nil
  rw [List.append_nil] at hscans
  rw [text, String.toList_ofList, hscans.scan_eq_some]

/-- No value starts with the token that closes an array. -/
theorem exists_token (v : Json) : ∃ token more, v.tokens = token :: more ∧ token ≠ .closeArray := by
  cases v with
  | array items => cases items <;> exact ⟨_, _, rfl, by decide⟩
  | object members => cases members <;> exact ⟨_, _, rfl, by decide⟩
  | _ => exact ⟨_, _, rfl, nofun⟩

namespace Reading

theorem step_firstItem {token : Token} (h : token ≠ .closeArray) (stack : List Frame) :
    step (.firstItem stack) token = step (.value (.item [] :: stack)) token := by
  cases token <;> first | rfl | exact absurd rfl h

end Reading

open Reading in
mutual

/-- The tokens of a value complete its draft. -/
theorem read_tokens : ∀ (v : Json) (stack : List Frame),
    v.tokens.foldlM step (.value stack) = some (complete v.draft stack)
  | .null, stack => rfl
  | .bool b, stack => rfl
  | .number n, stack => rfl
  | .string s, stack => rfl
  | .array [], stack => rfl
  | .array (v :: items), stack => by
    obtain ⟨token, more, htokens, hopen⟩ := exists_token v
    have hfirst : v.tokens.foldlM step (.firstItem stack) =
        v.tokens.foldlM step (.value (.item [] :: stack)) := by
      rw [htokens, List.foldlM_cons, List.foldlM_cons, step_firstItem hopen]
    have hitems := read_items items [v.draft] stack
    rw [tokens, List.foldlM_cons]
    change List.foldlM step (.firstItem stack) (v.tokens ++ itemsTokens items) = _
    rw [List.foldlM_append, hfirst, read_tokens v]
    exact hitems
  | .object [], stack => rfl
  | .object ((name, v) :: members), stack => by
    have hmembers := read_members members [(some name, v.draft)] stack
    rw [tokens, List.foldlM_cons]
    change List.foldlM step (.value (.member [] (some name) :: stack))
      (v.tokens ++ membersTokens members) = _
    rw [List.foldlM_append, read_tokens v]
    exact hmembers

theorem read_items : ∀ (items : List Json) (before : List Draft) (stack : List Frame),
    (itemsTokens items).foldlM step (.nextItem before stack) =
      some (complete (.array (before.reverse ++ itemsDraft items)) stack)
  | [], before, stack => by
    rw [itemsDraft, List.append_nil]
    rfl
  | v :: items, before, stack => by
    have hitems := read_items items (v.draft :: before) stack
    rw [List.reverse_cons, List.append_assoc] at hitems
    rw [itemsTokens, List.foldlM_cons]
    change List.foldlM step (.value (.item before :: stack)) (v.tokens ++ itemsTokens items) = _
    rw [List.foldlM_append, read_tokens v]
    exact hitems

theorem read_members : ∀ (members : List (String × Json))
    (before : List (Option String × Draft)) (stack : List Frame),
    (membersTokens members).foldlM step (.nextMember before stack) =
      some (complete (.object (before.reverse ++ membersDraft members)) stack)
  | [], before, stack => by
    rw [membersDraft, List.append_nil]
    rfl
  | (name, v) :: members, before, stack => by
    have hmembers := read_members members ((some name, v.draft) :: before) stack
    rw [List.reverse_cons, List.append_assoc] at hmembers
    rw [membersTokens, List.foldlM_cons]
    change List.foldlM step (.value (.member before (some name) :: stack))
      (v.tokens ++ membersTokens members) = _
    rw [List.foldlM_append, read_tokens v]
    exact hmembers

end

theorem ofText_text {v : Json} (h : ∀ n ∈ v.numbers, n.Kept) :
    Draft.ofText? v.text = some v.draft := by
  rw [Draft.ofText?, scan_text h]
  change (v.tokens.foldlM Reading.step (.value []) >>= fun reading => reading.draft?) = _
  rw [read_tokens]
  rfl

/-- What is needed leaves nothing of the value out. -/
inductive Need.Covers : Need → Json → Prop
  | whole (v : Json) : Covers .whole v
  | items {each : Need} {items : List Json} (h : ∀ v ∈ items, Covers each v) :
    Covers (.items each) (.array items)
  | fields {named : List (String × Need)} {members : List (String × Json)}
    (hnamed : ∀ entry ∈ members, ((Need.fields named).member? entry.1).isSome = true)
    (h : ∀ entry ∈ members, ∀ inner, (Need.fields named).member? entry.1 = some inner →
      Covers inner entry.2) :
    Covers (.fields named) (.object members)

namespace Need.Covers

variable {need : Need}

theorem item {items : List Json} (h : need.Covers (.array items)) :
    need.first.2 = need ∧ ∀ v ∈ items, need.first.1.Covers v := by
  cases h with
  | whole => exact ⟨rfl, fun v _ => .whole v⟩
  | items h => exact ⟨rfl, h⟩

theorem member {members : List (String × Json)} (h : need.Covers (.object members)) :
    ∀ entry ∈ members, ∃ inner, need.member? entry.1 = some inner ∧ inner.Covers entry.2 := by
  intro entry hentry
  cases h with
  | whole => exact ⟨.whole, rfl, .whole entry.2⟩
  | fields hnamed h =>
    obtain ⟨inner, hinner⟩ := Option.isSome_iff_exists.mp (hnamed entry hentry)
    exact ⟨inner, hinner, h entry hentry inner hinner⟩

end Need.Covers

mutual

/-- A value that is needed as a whole is taken as it is from its draft. -/
theorem value_draft : ∀ (v : Json) {need : Need} {room : Nat}, need.Covers v → v.depth ≤ room →
    v.draft.value? need room = some v
  | .null, _, _, _, _ => rfl
  | .bool b, _, _, _, _ => rfl
  | .number n, _, _, _, _ => rfl
  | .string s, _, _, _, _ => rfl
  | .array items, need, 0, _, hdepth => absurd hdepth (Nat.not_succ_le_zero _)
  | .array items, need, room + 1, h, hdepth => by
    rw [draft, Draft.value?, items_draft items h.item.2 h.item.1 (Nat.le_of_succ_le_succ hdepth)]
    rfl
  | .object members, need, 0, _, hdepth => absurd hdepth (Nat.not_succ_le_zero _)
  | .object members, need, room + 1, h, hdepth => by
    rw [draft, Draft.value?, members_draft members h.member (Nat.le_of_succ_le_succ hdepth)]
    rfl

theorem items_draft : ∀ (items : List Json) {need : Need} {room : Nat},
    (∀ v ∈ items, need.first.1.Covers v) → need.first.2 = need → itemsDepth items ≤ room →
    Draft.items? (itemsDraft items) need room = some items
  | [], _, _, _, _, _ => rfl
  | v :: items, need, room, h, hneed, hdepth => by
    rw [itemsDepth, Nat.max_le] at hdepth
    rw [List.forall_mem_cons] at h
    rw [itemsDraft, Draft.items?, value_draft v h.1 hdepth.1, hneed,
      items_draft items h.2 hneed hdepth.2]
    rfl

theorem members_draft : ∀ (members : List (String × Json)) {need : Need} {room : Nat},
    (∀ entry ∈ members, ∃ inner, need.member? entry.1 = some inner ∧ inner.Covers entry.2) →
    membersDepth members ≤ room →
    Draft.members? (membersDraft members) need room = some members
  | [], _, _, _, _ => rfl
  | (name, v) :: members, need, room, h, hdepth => by
    rw [membersDepth, Nat.max_le] at hdepth
    rw [List.forall_mem_cons] at h
    obtain ⟨⟨inner, hinner, hcovers⟩, hmembers⟩ := h
    rw [membersDraft, Draft.members?, members_draft members hmembers hdepth.2, hinner]
    dsimp only [bind, Option.bind]
    rw [value_draft v hcovers hdepth.1]
    rfl

end

/-- What is written is read, if it is needed and does not nest too deep. -/
theorem readNeeded_text {v : Json} {need : Need} (hnumbers : ∀ n ∈ v.numbers, n.Kept)
    (h : need.Covers v) (hdepth : v.depth ≤ depthLimit) : readNeeded? need v.text = some v := by
  rw [readNeeded?, ofText_text hnumbers]
  exact value_draft v h hdepth

end Rulebook.Json
