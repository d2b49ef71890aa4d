import Rulebook.Proofs.Counterparts

/-!
# Tables entry by entry

Tables stand in the order of their names. So tables with the same names have their entries side by
side, and what relates the entries of each name relates the two lists one by one.
-/
namespace Rulebook.Table

variable {α : Type} {S : α → α → Prop}

theorem get?_eq_none {table : Table α} {name : String} (h : ∀ entry ∈ table, entry.1 ≠ name) :
    get? table name = none := by
  induction table with
  | nil => rfl
  | cons entry rest ih =>
    obtain ⟨hentry, hrest⟩ := List.forall_mem_cons.mp h
    rw [get?_cons, if_neg hentry, ih hrest]

theorem get?_cons_of_ne {key name : String} (value : α) (rest : Table α) (h : key ≠ name) :
    get? ((key, value) :: rest) name = get? rest name := by
  rw [get?_cons, if_neg h]

/-- Tables that are alike begin with the same name. -/
theorem Alike.head {key key' : String} {value value' : α} {rest rest' : Table α}
    (hrest : ∀ entry ∈ rest, key < entry.1) (hrest' : ∀ entry ∈ rest', key' < entry.1)
    (h : Alike S ((key, value) :: rest) ((key', value') :: rest')) : key = key' := by
  by_contra hne
  have hnone : ∀ {small large : String} {held : α} {others : Table α}, small < large →
      (∀ entry ∈ others, large < entry.1) → get? ((large, held) :: others) small = none := by
    intro small large held others hless hothers
    refine get?_eq_none (List.forall_mem_cons.mpr ⟨fun heq => ?_, fun entry hentry heq => ?_⟩)
    · have hsame : large = small := heq
      exact String.lt_irrefl small (hsame ▸ hless)
    · exact String.lt_irrefl small (String.lt_trans hless (heq ▸ hothers entry hentry))
  by_cases hless : key < key'
  · have hkey := h key
    rw [hnone hless hrest', get?_cons, if_pos rfl] at hkey
    cases hkey
  · have hkey := h key'
    rw [hnone (lt_of_ne_of_not_lt hne hless) hrest, get?_cons, if_pos rfl] at hkey
    cases hkey

/-- Tables in the order of their names are alike just if they are so entry by entry. -/
theorem forall₂_iff_alike {table table' : Table α} (hordered : Ordered table)
    (hordered' : Ordered table') :
    List.Forall₂ (fun p q => p.1 = q.1 ∧ S p.2 q.2) table table' ↔ Alike S table table' := by
  induction table generalizing table' with
  | nil =>
    cases table' with
    | nil => exact ⟨fun _ _ => .none, fun _ => .nil⟩
    | cons entry rest =>
      refine ⟨fun h => (nomatch h), fun h => ?_⟩
      have hname := h entry.1
      rw [get?_nil, get?_cons, if_pos rfl] at hname
      cases hname
  | cons entry rest ih =>
    obtain ⟨key, value⟩ := entry
    cases table' with
    | nil =>
      refine ⟨fun h => (nomatch h), fun h => ?_⟩
      have hname := h key
      rw [get?_nil, get?_cons, if_pos rfl] at hname
      cases hname
    | cons entry' rest' =>
      obtain ⟨key', value'⟩ := entry'
      obtain ⟨hbehind, hrest⟩ := ordered_cons.mp hordered
      obtain ⟨hbehind', hrest'⟩ := ordered_cons.mp hordered'
      have habsent : ∀ {others : Table α}, (∀ entry ∈ others, key < entry.1) →
          get? others key = none := fun hothers =>
        get?_eq_none fun entry hentry heq =>
          String.lt_irrefl key (heq ▸ hothers entry hentry)
      rw [List.forall₂_cons, ih hrest hrest']
      constructor
      · rintro ⟨⟨rfl, hvalue⟩, hothers⟩ name
        by_cases hname : key = name
        · rw [get?_cons, if_pos hname, get?_cons, if_pos hname]
          exact .some hvalue
        · rw [get?_cons_of_ne _ _ hname, get?_cons_of_ne _ _ hname]
          exact hothers name
      · intro h
        obtain rfl : key = key' := h.head hbehind hbehind'
        refine ⟨⟨rfl, ?_⟩, fun name => ?_⟩
        · have hkey := h key
          rw [get?_cons, if_pos rfl, get?_cons, if_pos rfl] at hkey
          cases hkey
          assumption
        · by_cases hname : key = name
          · subst hname
            rw [habsent hbehind, habsent hbehind']
            exact .none
          · have hlookup := h name
            rwa [get?_cons_of_ne _ _ hname, get?_cons_of_ne _ _ hname] at hlookup

end Rulebook.Table
