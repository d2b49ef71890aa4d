/-!
# Tables

A table holds values under names. Its entries stand in the order of the names, so two tables with
the same entries are the same list.
-/
namespace Rulebook

universe u v

abbrev Table (α : Type u) := List (String × α)

namespace Table

variable {α : Type u} {β : Type v}

def get? (table : Table α) (name : String) : Option α :=
  match table with
  | [] => none
  | (key, value) :: rest => if key = name then some value else get? rest name

def has (table : Table α) (name : String) : Bool :=
  (get? table name).isSome

/-- Puts the value in its place, or in the place of the value that the name has. -/
def put (table : Table α) (name : String) (value : α) : Table α :=
  match table with
  | [] => [(name, value)]
  | (key, held) :: rest =>
    if name = key then (name, value) :: rest
    else if name < key then (name, value) :: (key, held) :: rest
    else (key, held) :: put rest name value

def remove (table : Table α) (name : String) : Table α :=
  table.filter fun entry => entry.1 ≠ name

/-- Of two entries with one name the later one stays. -/
def ofEntries (entries : List (String × α)) : Table α :=
  entries.foldl (fun table entry => put table entry.1 entry.2) []

def names (table : Table α) : List String :=
  table.map Prod.fst

def mapValues (f : α → β) (table : Table α) : Table β :=
  table.map fun entry => (entry.1, f entry.2)

/-- The names increase, so no name stands twice. -/
def Ordered (table : Table α) : Prop :=
  (names table).Pairwise (· < ·)

@[simp] theorem get?_nil (name : String) : get? ([] : Table α) name = none := rfl

theorem get?_cons (key name : String) (value : α) (rest : Table α) :
    get? ((key, value) :: rest) name = if key = name then some value else get? rest name := rfl

theorem mem_of_get? {table : Table α} {name : String} {value : α}
    (h : get? table name = some value) : (name, value) ∈ table := by
  induction table with
  | nil => cases h
  | cons entry rest ih =>
    obtain ⟨key, held⟩ := entry
    rw [get?_cons] at h
    split at h
    · next hkey =>
      cases h
      exact hkey ▸ List.mem_cons_self
    · exact List.mem_cons_of_mem _ (ih h)

theorem get?_put_self (table : Table α) (name : String) (value : α) :
    get? (put table name value) name = some value := by
  induction table with
  | nil => simp [put, get?]
  | cons entry rest ih =>
    obtain ⟨key, held⟩ := entry
    simp only [put]
    split
    · simp [get?]
    · split
      · simp [get?]
      · next h _ => simp [get?, Ne.symm h, ih]

theorem get?_put_of_ne (table : Table α) {name other : String} (value : α) (h : name ≠ other) :
    get? (put table name value) other = get? table other := by
  induction table with
  | nil => simp [put, get?, h]
  | cons entry rest ih =>
    obtain ⟨key, held⟩ := entry
    simp only [put]
    split
    · next hk => subst hk; simp [get?, h]
    · split
      · simp [get?, h]
      · simp [get?, ih]

theorem remove_cons (key : String) (value : α) (rest : Table α) (name : String) :
    remove ((key, value) :: rest) name =
      if key = name then remove rest name else (key, value) :: remove rest name := by
  by_cases h : key = name <;> simp [remove, h]

theorem get?_remove_self (table : Table α) (name : String) :
    get? (remove table name) name = none := by
  induction table with
  | nil => rfl
  | cons entry rest ih =>
    rw [remove_cons]
    split
    · exact ih
    · next h => rw [get?_cons, if_neg h, ih]

theorem get?_remove_of_ne (table : Table α) {name other : String} (h : name ≠ other) :
    get? (remove table name) other = get? table other := by
  induction table with
  | nil => rfl
  | cons entry rest ih =>
    obtain ⟨key, held⟩ := entry
    rw [remove_cons, get?_cons]
    split
    · next hk => rw [ih, if_neg (hk ▸ h)]
    · rw [get?_cons, ih]

theorem put_put (table : Table α) (name : String) (first second : α) :
    put (put table name first) name second = put table name second := by
  induction table with
  | nil => simp [put]
  | cons entry rest ih =>
    obtain ⟨key, held⟩ := entry
    simp only [put]
    split
    · simp [put]
    · split
      · simp [put]
      · next hne hlt => simp [put, hne, hlt, ih]

theorem remove_put (table : Table α) (name : String) (value : α) :
    remove (put table name value) name = remove table name := by
  induction table with
  | nil => simp [put, remove]
  | cons entry rest ih =>
    obtain ⟨key, held⟩ := entry
    simp only [put]
    split
    · next hkey =>
      subst hkey
      rw [remove_cons, remove_cons, if_pos rfl, if_pos rfl]
    · split
      · rw [remove_cons, if_pos rfl]
      · rw [remove_cons, remove_cons, ih]

theorem remove_of_get?_eq_none {table : Table α} {name : String} (h : get? table name = none) :
    remove table name = table := by
  induction table with
  | nil => rfl
  | cons entry rest ih =>
    obtain ⟨key, held⟩ := entry
    rw [get?_cons] at h
    split at h
    · cases h
    · next hkey => rw [remove_cons, if_neg hkey, ih h]

theorem lt_of_ne_of_not_lt {a b : String} (hne : a ≠ b) (hnot : ¬ a < b) : b < a :=
  Std.lt_of_le_of_ne (String.not_lt.mp hnot) (Ne.symm hne)

theorem mem_put {table : Table α} {name : String} {value : α} {entry : String × α}
    (h : entry ∈ put table name value) : entry = (name, value) ∨ entry ∈ table := by
  induction table with
  | nil => simpa [put] using h
  | cons first rest ih =>
    obtain ⟨key, held⟩ := first
    simp only [put] at h
    split at h
    · rcases List.mem_cons.mp h with h | h
      · exact Or.inl h
      · exact Or.inr (List.mem_cons_of_mem _ h)
    · split at h
      · rcases List.mem_cons.mp h with h | h
        · exact Or.inl h
        · exact Or.inr h
      · rcases List.mem_cons.mp h with h | h
        · exact Or.inr (h ▸ List.mem_cons_self ..)
        · exact (ih h).imp id (List.mem_cons_of_mem _)

theorem ordered_cons {key : String} {value : α} {rest : Table α} :
    Ordered ((key, value) :: rest) ↔ (∀ entry ∈ rest, key < entry.1) ∧ Ordered rest := by
  simp [Ordered, names]

theorem ordered_nil : Ordered ([] : Table α) := List.Pairwise.nil

theorem Ordered.put {table : Table α} (h : Ordered table) (name : String) (value : α) :
    Ordered (put table name value) := by
  induction table with
  | nil => simp [Table.put, Ordered, names]
  | cons first rest ih =>
    obtain ⟨key, held⟩ := first
    obtain ⟨hfirst, hrest⟩ := ordered_cons.mp h
    simp only [Table.put]
    split
    · next he =>
      subst he
      exact ordered_cons.mpr ⟨hfirst, hrest⟩
    · next hne =>
      split
      · next hlt =>
        refine ordered_cons.mpr ⟨fun entry he => ?_, h⟩
        rcases List.mem_cons.mp he with rfl | he
        · exact hlt
        · exact String.lt_trans hlt (hfirst entry he)
      · next hnot =>
        refine ordered_cons.mpr ⟨fun entry he => ?_, ih hrest⟩
        rcases mem_put he with rfl | he
        · exact lt_of_ne_of_not_lt hne hnot
        · exact hfirst entry he

theorem Ordered.remove {table : Table α} (h : Ordered table) (name : String) :
    Ordered (remove table name) :=
  List.Pairwise.sublist (List.Sublist.map _ List.filter_sublist) h

theorem mem_foldl_put {entries table : List (String × α)} {entry : String × α}
    (h : entry ∈ entries.foldl (fun table entry => put table entry.1 entry.2) table) :
    entry ∈ table ∨ entry ∈ entries := by
  induction entries generalizing table with
  | nil => exact Or.inl h
  | cons first rest ih =>
    rcases ih h with h | h
    · rcases mem_put h with rfl | h
      · exact Or.inr (List.mem_cons_self ..)
      · exact Or.inl h
    · exact Or.inr (List.mem_cons_of_mem _ h)

theorem mem_of_mem_ofEntries {entries : List (String × α)} {entry : String × α}
    (h : entry ∈ ofEntries entries) : entry ∈ entries :=
  (mem_foldl_put h).resolve_left (by simp)

theorem Ordered.foldl_put {table : Table α} (h : Ordered table) (entries : List (String × α)) :
    Ordered (entries.foldl (fun table entry => Table.put table entry.1 entry.2) table) := by
  induction entries generalizing table with
  | nil => exact h
  | cons first rest ih => exact ih (h.put first.1 first.2)

theorem ordered_ofEntries (entries : List (String × α)) : Ordered (ofEntries entries) :=
  ordered_nil.foldl_put entries

theorem put_nil (name : String) (value : α) : put [] name value = [(name, value)] := rfl

theorem put_before {key name : String} (h : name < key) (held value : α) (rest : Table α) :
    put ((key, held) :: rest) name value = (name, value) :: (key, held) :: rest := by
  have hne : name ≠ key := fun heq => String.lt_irrefl key (heq ▸ h)
  rw [put, if_neg hne, if_pos h]

theorem put_behind {key name : String} (h : key < name) (held value : α) (rest : Table α) :
    put ((key, held) :: rest) name value = (key, held) :: put rest name value := by
  have hne : name ≠ key := fun heq => String.lt_irrefl key (heq ▸ h)
  rw [put, if_neg hne, if_neg (String.lt_asymm h)]

theorem put_last {table : Table α} {name : String} (h : ∀ entry ∈ table, entry.1 < name)
    (value : α) : put table name value = table ++ [(name, value)] := by
  induction table with
  | nil => rfl
  | cons first rest ih =>
    obtain ⟨key, held⟩ := first
    rw [List.forall_mem_cons] at h
    rw [put_behind h.1, ih h.2]
    rfl

/-- Entries that stand in the order of their names are put one behind the other. -/
theorem Ordered.foldl_put_eq {table entries : Table α} (h : Ordered (table ++ entries)) :
    entries.foldl (fun table entry => Table.put table entry.1 entry.2) table = table ++ entries := by
  induction entries generalizing table with
  | nil => exact (List.append_nil table).symm
  | cons first rest ih =>
    have hbelow : ∀ entry ∈ table, entry.1 < first.1 := by
      rw [Ordered, names, List.map_append, List.pairwise_append] at h
      intro entry hentry
      exact h.2.2 entry.1 (List.mem_map_of_mem hentry) first.1 List.mem_cons_self
    have hsplit : table ++ first :: rest = (table ++ [first]) ++ rest := by simp
    rw [List.foldl_cons, put_last hbelow, hsplit]
    exact ih (hsplit ▸ h)

theorem Ordered.ofEntries_eq {entries : Table α} (h : Ordered entries) :
    ofEntries entries = entries := by
  have happend : Ordered ([] ++ entries) := h
  exact happend.foldl_put_eq

end Table
end Rulebook
