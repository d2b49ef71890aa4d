import Rulebook.CompiledRule

/-!
# Rulesets that are kept

Compiled rulesets are kept under their URIs for a refresh interval. An interval of zero has always
passed, any other one never. When a ruleset cannot be loaded again, the one that is kept goes on to
serve. A URI has a slot while its ruleset is loaded for the first time, and loses it if that fails.
-/
namespace Rulebook

/-- Where rules come from: the rules under a URI, if there are any. -/
abbrev RuleSource := String → Except Failure (Option (List Rule))

/-- A compiled ruleset and the number of the load that it comes from. -/
structure LoadedRuleset (σ : Type) where
  ruleset : Ruleset σ
  load : Nat

structure RulesetCache (σ : Type) where
  refreshSeconds : Nat
  /-- A slot is empty until a ruleset has been loaded into it. -/
  slots : Table (Option (LoadedRuleset σ))
  /-- How often the source has been asked since the beginning. -/
  asked : Nat
  /-- How many loads have succeeded since the beginning. -/
  loads : Nat

namespace RulesetCache

variable {σ : Type}

def empty (refreshSeconds : Nat) : RulesetCache σ := ⟨refreshSeconds, [], 0, 0⟩

def load (source : RuleSource) (compile : List Rule → Except Failure (Ruleset σ)) (uri : String) :
    Except Failure (Ruleset σ) := do
  match ← source uri with
  | some rules => compile rules
  | none => throw (.noRuleset uri)

/-- The ruleset in the slot of a URI. -/
def kept? (cache : RulesetCache σ) (uri : String) : Option (LoadedRuleset σ) :=
  (Table.get? cache.slots uri).join

/-- The ruleset that is kept and need not be loaded again. -/
def fresh? (cache : RulesetCache σ) (uri : String) : Option (LoadedRuleset σ) :=
  if cache.refreshSeconds = 0 then none else cache.kept? uri

/-- The URI gets a slot, unless it has one. -/
def openSlot (cache : RulesetCache σ) (uri : String) : RulesetCache σ :=
  if Table.has cache.slots uri then cache
  else { cache with slots := Table.put cache.slots uri none }

def keep (cache : RulesetCache σ) (uri : String) (ruleset : Ruleset σ) : RulesetCache σ :=
  { cache with
    slots := Table.put cache.slots uri (some ⟨ruleset, cache.loads + 1⟩)
    loads := cache.loads + 1 }

/-- The URI loses its slot if there is nothing in it. -/
def discardEmpty (cache : RulesetCache σ) (uri : String) : RulesetCache σ :=
  match Table.get? cache.slots uri with
  | some none => { cache with slots := Table.remove cache.slots uri }
  | _ => cache

/-- The source is asked exactly when no fresh ruleset is kept. -/
def get (cache : RulesetCache σ) (source : RuleSource)
    (compile : List Rule → Except Failure (Ruleset σ)) (uri : String) :
    Except Failure (LoadedRuleset σ) × RulesetCache σ :=
  let cache := cache.openSlot uri
  match cache.fresh? uri with
  | some kept => (.ok kept, cache)
  | none =>
    let cache := { cache with asked := cache.asked + 1 }
    match load source compile uri with
    | .ok ruleset => (.ok ⟨ruleset, cache.loads + 1⟩, cache.keep uri ruleset)
    | .error failure =>
      match cache.kept? uri with
      | some stale => (.ok stale, cache)
      | none => (.error failure, cache.discardEmpty uri)

def evict (cache : RulesetCache σ) (uri : String) : RulesetCache σ :=
  { cache with slots := Table.remove cache.slots uri }

def clear (cache : RulesetCache σ) : RulesetCache σ := { cache with slots := [] }

/-- The URIs whose rulesets are kept. -/
def uris (cache : RulesetCache σ) : List String :=
  Table.names (cache.slots.filter fun slot => slot.2.isSome)

@[simp] theorem kept?_openSlot (cache : RulesetCache σ) (uri other : String) :
    (cache.openSlot uri).kept? other = cache.kept? other := by
  unfold openSlot kept?
  split
  · rfl
  · next hslot =>
    by_cases h : uri = other
    · subst h
      rw [Table.get?_put_self]
      cases hget : Table.get? cache.slots uri with
      | none => rfl
      | some slot => simp [Table.has, hget] at hslot
    · rw [Table.get?_put_of_ne _ _ h]

@[simp] theorem fresh?_openSlot (cache : RulesetCache σ) (uri other : String) :
    (cache.openSlot uri).fresh? other = cache.fresh? other := by
  have hrefresh : (cache.openSlot uri).refreshSeconds = cache.refreshSeconds := by
    unfold openSlot
    split <;> rfl
  rw [fresh?, hrefresh, kept?_openSlot, fresh?]

@[simp] theorem kept?_discardEmpty (cache : RulesetCache σ) (uri other : String) :
    (cache.discardEmpty uri).kept? other = cache.kept? other := by
  unfold discardEmpty
  split
  · next hempty =>
    unfold kept?
    by_cases h : uri = other
    · subst h
      rw [Table.get?_remove_self, hempty]
      rfl
    · rw [Table.get?_remove_of_ne _ h]
  · rfl

theorem kept?_keep_self (cache : RulesetCache σ) (uri : String) (ruleset : Ruleset σ) :
    (cache.keep uri ruleset).kept? uri = some ⟨ruleset, cache.loads + 1⟩ := by
  rw [kept?, keep, Table.get?_put_self]
  rfl

theorem kept?_keep_of_ne (cache : RulesetCache σ) {uri other : String} (ruleset : Ruleset σ)
    (h : uri ≠ other) : (cache.keep uri ruleset).kept? other = cache.kept? other := by
  rw [kept?, keep, Table.get?_put_of_ne _ _ h, kept?]

end RulesetCache
end Rulebook
