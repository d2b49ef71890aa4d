import Mathlib.Data.List.Induction
import Mathlib.Data.List.Nodup
import Rulebook.Proofs.JsonText
import Rulebook.Proofs.OrderedTables

/-!
# Keys of arguments

The key of some arguments tells their names and values and nothing else. Two values are identical if
they have the same form and the same parts, whatever the order in which the members of an object were
written; so the order in which arguments were put together leaves no trace in the key either.
-/
namespace Rulebook

namespace Table

variable {α β : Type}

/-- Of the entries with one name, the value of the last. -/
def last? (entries : List (String × α)) (name : String) : Option α :=
  (entries.reverse.find? fun entry => entry.1 = name).map Prod.snd

theorem last?_concat (entries : List (String × α)) (entry : String × α) (name : String) :
    last? (entries ++ [entry]) name =
      if entry.1 = name then some entry.2 else last? entries name := by
  rw [last?, List.reverse_append, List.reverse_singleton, List.singleton_append, List.find?_cons]
  by_cases h : entry.1 = name
  · simp [h]
  · simp [h, last?]

theorem last?_mapValues (f : α → β) (entries : List (String × α)) (name : String) :
    last? (mapValues f entries) name = (last? entries name).map f := by
  simp [last?, mapValues, ← List.map_reverse, List.find?_map, Function.comp_def]

theorem mem_of_last? {entries : List (String × α)} {name : String} {value : α}
    (h : last? entries name = some value) : (name, value) ∈ entries := by
  obtain ⟨⟨key, held⟩, hfound, rfl⟩ := Option.map_eq_some_iff.mp h
  obtain rfl : key = name := by simpa using List.find?_some hfound
  exact List.mem_reverse.mp (List.mem_of_find?_eq_some hfound)

/-- Where no name stands twice, every entry is the last one with its name. -/
theorem last?_eq_some_iff {entries : List (String × α)} (h : (entries.map Prod.fst).Nodup)
    {name : String} {value : α} : last? entries name = some value ↔ (name, value) ∈ entries := by
  refine ⟨mem_of_last?, fun hmem => ?_⟩
  obtain ⟨held, hheld⟩ : ∃ held, last? entries name = some held := by
    have hsome : (entries.reverse.find? fun entry => entry.1 = name).isSome = true :=
      List.find?_isSome.mpr ⟨_, List.mem_reverse.mpr hmem, by simp⟩
    obtain ⟨entry, hentry⟩ := Option.isSome_iff_exists.mp hsome
    exact ⟨entry.2, by rw [last?, hentry, Option.map_some]⟩
  have hentry := List.inj_on_of_nodup_map h (mem_of_last? hheld) hmem rfl
  rw [hheld, (Prod.mk.inj hentry).2]

/-- The order of entries under distinct names does not matter. -/
theorem last?_perm {entries others : List (String × α)} (h : (entries.map Prod.fst).Nodup)
    (hperm : entries.Perm others) (name : String) : last? entries name = last? others name := by
  have hothers : (others.map Prod.fst).Nodup := (hperm.map Prod.fst).nodup_iff.mp h
  refine Option.ext fun value => ?_
  rw [last?_eq_some_iff h, last?_eq_some_iff hothers, hperm.mem_iff]

theorem get?_ofEntries (entries : List (String × α)) (name : String) :
    get? (ofEntries entries) name = last? entries name := by
  induction entries using List.reverseRecOn with
  | nil => rfl
  | append_singleton entries entry ih =>
    rw [ofEntries, List.foldl_concat, last?_concat]
    split
    · next h => rw [← h, get?_put_self]
    · next h => rw [get?_put_of_ne _ _ h, ← ih, ofEntries]

/-- Tables in the order of their names are the same if every name has the same value in both. -/
theorem Ordered.eq_of_get? {table other : Table α} (h : Ordered table) (hother : Ordered other)
    (hget : ∀ name, get? table name = get? other name) : table = other := by
  have halike : Alike Eq table other := by
    intro name
    rw [hget name]
    cases get? other name with
    | none => exact .none
    | some value => exact .some rfl
  have hentries := (forall₂_iff_alike h hother).mpr halike
  rw [← List.forall₂_eq_eq_eq]
  exact hentries.imp fun entry entry' hentry => Prod.ext hentry.1 hentry.2

end Table

namespace Json

/-- The same form and the same parts. Of the members of an object that were written with one name the
last one counts, and their order does not. The two zeros are different numbers, and so are `1` and
`1.0`. -/
inductive Identical : Json → Json → Prop
  | null : Identical .null .null
  | bool (b : Bool) : Identical (.bool b) (.bool b)
  | number (n : Number) : Identical (.number n) (.number n)
  | string (text : String) : Identical (.string text) (.string text)
  | array {items others : List Json} :
    List.Forall₂ Identical items others → Identical (.array items) (.array others)
  | object {members others : List (String × Json)} :
    (∀ name, Option.Rel Identical (Table.last? members name) (Table.last? others name)) →
      Identical (.object members) (.object others)

theorem orderedMembers_eq_mapValues (members : List (String × Json)) :
    orderedMembers members = Table.mapValues ordered members := by
  induction members with
  | nil => rfl
  | cons member rest ih =>
    obtain ⟨name, v⟩ := member
    rw [orderedMembers, ih]
    rfl

/-- The ordered members of two objects agree if they agree name by name. -/
theorem ordered_object_iff {members others : List (String × Json)} :
    (object members).ordered = (object others).ordered ↔
      ∀ name, (Table.last? members name).map ordered = (Table.last? others name).map ordered := by
  have hget : ∀ (entries : List (String × Json)) (name : String),
      Table.get? (Table.ofEntries (orderedMembers entries)) name =
        (Table.last? entries name).map ordered := by
    intro entries name
    rw [Table.get?_ofEntries, orderedMembers_eq_mapValues, Table.last?_mapValues]
  rw [ordered, ordered, object.injEq]
  constructor
  · intro h name
    rw [← hget, ← hget, h]
  · intro h
    refine (Table.ordered_ofEntries _).eq_of_get? (Table.ordered_ofEntries _) fun name => ?_
    rw [hget, hget, h]

mutual

/-- Values with one ordered form are identical, and no others are. -/
theorem ordered_eq_iff : ∀ v w : Json, v.ordered = w.ordered ↔ Identical v w
  | .array items, w => by
    cases w with
    | array others =>
      rw [ordered, ordered, array.injEq, orderedItems_eq_iff items others]
      exact ⟨.array, fun | .array h => h⟩
    | _ => constructor <;> intro h <;> cases h
  | .object members, w => by
    cases w with
    | object others =>
      rw [ordered_object_iff]
      have hname : ∀ name, (Table.last? members name).map ordered =
          (Table.last? others name).map ordered ↔
            Option.Rel Identical (Table.last? members name) (Table.last? others name) := by
        intro name
        cases hmember : Table.last? members name with
        | none =>
          cases Table.last? others name with
          | none => exact ⟨fun _ => .none, fun _ => rfl⟩
          | some y => constructor <;> intro h <;> cases h
        | some x =>
          cases Table.last? others name with
          | none => constructor <;> intro h <;> cases h
          | some y =>
            have hpart := orderedMembers_eq_iff members _ (Table.mem_of_last? hmember) y
            rw [Option.map_some, Option.map_some, Option.some_inj, hpart]
            exact ⟨.some, fun | .some h => h⟩
      simp only [hname]
      exact ⟨.object, fun | .object h => h⟩
    | _ => constructor <;> intro h <;> cases h
  | .null, w | .bool _, w | .number _, w | .string _, w => by
    constructor
    · intro h
      cases w <;> cases h
      constructor
    · intro h
      cases h
      rfl

theorem orderedItems_eq_iff : ∀ items others : List Json,
    orderedItems items = orderedItems others ↔ List.Forall₂ Identical items others
  | [], [] => by simp
  | [], w :: others => by simp [orderedItems]
  | v :: items, [] => by simp [orderedItems]
  | v :: items, w :: others => by
    rw [orderedItems, orderedItems, List.cons.injEq, ordered_eq_iff v w,
      orderedItems_eq_iff items others, List.forall₂_cons]

theorem orderedMembers_eq_iff : ∀ (members : List (String × Json)), ∀ member ∈ members, ∀ w : Json,
    member.2.ordered = w.ordered ↔ Identical member.2 w
  | (name, v) :: members, member, hmem, w => by
    rcases List.mem_cons.mp hmem with rfl | hrest
    · exact ordered_eq_iff v w
    · exact orderedMembers_eq_iff members member hrest w

end

end Json

namespace Arguments

/-- The arguments when values have been put in under names, one after the other. -/
def inserted (entries : List (String × Json)) : Arguments :=
  entries.foldl (fun arguments entry => Table.put arguments entry.1 entry.2.ordered) []

theorem object_inserted (entries : List (String × Json)) :
    Json.object (inserted entries) = (Json.object entries).ordered := by
  rw [Json.ordered, Json.orderedMembers_eq_mapValues, Table.ofEntries, Table.mapValues,
    List.foldl_map, inserted]

theorem key_eq_iff {arguments other : Arguments} :
    arguments.key = other.key ↔ Json.object arguments = Json.object other :=
  ⟨Json.text_inj, congrArg Json.text⟩

/-- Two keys are the same exactly when the last values under each name are identical, and the order in
which values were put in under distinct names never matters. All arguments whose values are ordered
are put together so. -/
theorem keys_identify (entries others : List (String × Json)) :
    ((inserted entries).key = (inserted others).key ↔
      ∀ name, Option.Rel Json.Identical (Table.last? entries name) (Table.last? others name)) ∧
    ((entries.map Prod.fst).Nodup → entries.Perm others →
      (inserted entries).key = (inserted others).key) ∧
    ∀ arguments : Arguments, (Json.object arguments).Ordered →
      inserted arguments = arguments := by
  rw [key_eq_iff, object_inserted, object_inserted]
  refine ⟨?_, fun hnames hperm => ?_, fun arguments hordered => ?_⟩
  · rw [Json.ordered_eq_iff]
    exact ⟨fun | .object h => h, .object⟩
  · refine Json.ordered_object_iff.mpr fun name => ?_
    rw [Table.last?_perm hnames hperm]
  · have hobject := (object_inserted arguments).trans hordered.ordered_eq
    exact Json.object.inj hobject

/-- Two stops in the order of a trip. -/
def trip : Json := .object [("from", .string "HAM"), ("to", .string "\"LIS\"")]

/-- The stops written the other way round. -/
def tripReversed : Json := .object [("to", .string "\"LIS\""), ("from", .string "HAM")]

/-- The order of members does not show in a key, but the form of a number does. -/
theorem trip_identified :
    (inserted [("stops", trip)]).key = (inserted [("stops", tripReversed)]).key ∧
    (inserted [("bags", .ofNat 1)]).key ≠
      (inserted [("bags", .number (.double (.ofInt 1)))]).key := by
  constructor
  · refine (keys_identify _ _).1.mpr fun name => ?_
    by_cases hname : "stops" = name
    · subst hname
      exact .some ((Json.ordered_eq_iff _ _).mp rfl)
    · rw [Table.last?, Table.last?]
      simp [hname]
  · intro h
    have hbags := (keys_identify _ _).1.mp h "bags"
    cases hbags with
    | some hsame => cases hsame

end Arguments
end Rulebook
