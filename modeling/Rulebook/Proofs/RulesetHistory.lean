import Rulebook.RulesetCache

/-!
# Histories of the ruleset cache

Whatever calls have been made, the slots of the cache are those of the URIs that have been loaded
since they were last given up, and each holds the latest of these loads. What a lookup asks and
answers follows from that. The step lemmas rest on one account of a lookup, `get_cases`: among slots
that are filled it leaves either its own slot filled or no slot at all.
-/
namespace Rulebook

namespace RulesetCache

variable {σ : Type} {cache : RulesetCache σ} {source : RuleSource}
  {compile : List Rule → Except Failure (Ruleset σ)} {uri other : String} {failure : Failure}
  {ruleset : Ruleset σ} {loaded : LoadedRuleset σ}

/-- Asking for the URI gives rules, and they compile. -/
def Finds (source : RuleSource) (compile : List Rule → Except Failure (Ruleset σ)) (uri : String)
    (ruleset : Ruleset σ) : Prop :=
  ∃ rules, source uri = .ok (some rules) ∧ compile rules = .ok ruleset

/-- Asking for the URI fails, gives no rules, or gives rules that do not compile. -/
def Misses (source : RuleSource) (compile : List Rule → Except Failure (Ruleset σ)) (uri : String)
    (failure : Failure) : Prop :=
  source uri = .error failure ∨
    (source uri = .ok none ∧ failure = .noRuleset uri) ∨
    ∃ rules, source uri = .ok (some rules) ∧ compile rules = .error failure

theorem load_eq_ok_iff :
    load source compile uri = .ok ruleset ↔ Finds source compile uri ruleset := by
  unfold load Finds
  rcases source uri with asked | _ | rules
  · exact ⟨fun h => (by cases h), fun ⟨_, h, _⟩ => (by cases h)⟩
  · exact ⟨fun h => (by cases h), fun ⟨_, h, _⟩ => (by cases h)⟩
  · refine ⟨fun h => ⟨rules, rfl, h⟩, ?_⟩
    rintro ⟨_, hrules, hcompile⟩
    cases hrules
    exact hcompile

theorem load_eq_error_iff :
    load source compile uri = .error failure ↔ Misses source compile uri failure := by
  unfold load Misses
  rcases source uri with asked | _ | rules
  · constructor
    · intro h
      cases h
      exact .inl rfl
    · rintro (h | ⟨h, -⟩ | ⟨_, h, -⟩) <;> cases h
      rfl
  · constructor
    · intro h
      cases h
      exact .inr (.inl ⟨rfl, rfl⟩)
    · rintro (h | ⟨-, rfl⟩ | ⟨_, h, -⟩)
      · cases h
      · rfl
      · cases h
  · constructor
    · exact fun h => .inr (.inr ⟨rules, rfl, h⟩)
    · rintro (h | ⟨h, -⟩ | ⟨_, h, hcompile⟩) <;> cases h
      exact hcompile

theorem Misses.not_finds (h : Misses source compile uri failure) :
    ¬ Finds source compile uri ruleset := by
  intro hfinds
  have hload := (load_eq_error_iff.mpr h).symm.trans (load_eq_ok_iff.mpr hfinds)
  cases hload

theorem Misses.unique {other : Failure} (h : Misses source compile uri failure)
    (h' : Misses source compile uri other) : failure = other :=
  Except.error.inj ((load_eq_error_iff.mpr h).symm.trans (load_eq_error_iff.mpr h'))

theorem Finds.unique {found : Ruleset σ} (h : Finds source compile uri ruleset)
    (h' : Finds source compile uri found) : ruleset = found :=
  Except.ok.inj ((load_eq_ok_iff.mpr h).symm.trans (load_eq_ok_iff.mpr h'))

/-- No slot is empty. -/
def Filled (cache : RulesetCache σ) : Prop := ∀ uri, Table.get? cache.slots uri ≠ some none

theorem Filled.kept?_eq (h : cache.Filled) (uri : String) :
    Table.get? cache.slots uri = (cache.kept? uri).map some := by
  have hslot := h uri
  unfold kept?
  cases hget : Table.get? cache.slots uri with
  | none => rfl
  | some slot =>
    cases slot with
    | none => exact absurd hget hslot
    | some loaded => rfl

/-- A slot that is opened is the one that was there, or stands empty. -/
theorem Filled.openSlot_cases (h : cache.Filled) (uri : String) :
    ((∃ loaded, cache.kept? uri = some loaded) ∧ cache.openSlot uri = cache) ∨
      cache.kept? uri = none ∧
        cache.openSlot uri = { cache with slots := Table.put cache.slots uri none } := by
  have hslot := h.kept?_eq uri
  unfold openSlot Table.has
  rw [hslot]
  cases cache.kept? uri with
  | none => exact .inr ⟨rfl, if_neg Bool.false_ne_true⟩
  | some loaded => exact .inl ⟨⟨loaded, rfl⟩, if_pos rfl⟩

/-- The four ways in which a lookup ends. -/
theorem Filled.get_cases (h : cache.Filled) (source : RuleSource)
    (compile : List Rule → Except Failure (Ruleset σ)) (uri : String) :
    (∃ kept, cache.fresh? uri = some kept ∧ cache.get source compile uri = (.ok kept, cache)) ∨
    cache.fresh? uri = none ∧
      ((∃ ruleset, Finds source compile uri ruleset ∧ cache.get source compile uri =
        (.ok ⟨ruleset, cache.loads + 1⟩,
          { cache with asked := cache.asked + 1 }.keep uri ruleset)) ∨
      ∃ failure, Misses source compile uri failure ∧
        ((∃ stale, cache.kept? uri = some stale ∧ cache.get source compile uri =
          (.ok stale, { cache with asked := cache.asked + 1 })) ∨
        cache.kept? uri = none ∧ cache.get source compile uri =
          (.error failure, { cache with asked := cache.asked + 1 }))) := by
  unfold RulesetCache.get
  dsimp only
  rw [fresh?_openSlot]
  rcases h.openSlot_cases uri with ⟨⟨loaded, hkept⟩, hopen⟩ | ⟨hkept, hopen⟩
  · rw [hopen]
    cases hfresh : cache.fresh? uri with
    | some kept => exact .inl ⟨kept, rfl, rfl⟩
    | none =>
      refine .inr ⟨rfl, ?_⟩
      cases hload : load source compile uri with
      | ok ruleset => exact .inl ⟨ruleset, load_eq_ok_iff.mp hload, rfl⟩
      | error failure =>
        refine .inr ⟨failure, load_eq_error_iff.mp hload, .inl ⟨loaded, hkept, ?_⟩⟩
        have hasked : kept? { cache with asked := cache.asked + 1 } uri = some loaded := hkept
        simp only [hasked]
  · rw [hopen]
    have hfresh : cache.fresh? uri = none := by
      unfold fresh?
      rw [hkept, ite_self]
    rw [hfresh]
    refine .inr ⟨rfl, ?_⟩
    cases hload : load source compile uri with
    | ok ruleset =>
      refine .inl ⟨ruleset, load_eq_ok_iff.mp hload, ?_⟩
      simp only [keep, Table.put_put]
    | error failure =>
      refine .inr ⟨failure, load_eq_error_iff.mp hload, .inr ⟨hkept, ?_⟩⟩
      have hnone : Table.get? cache.slots uri = none := by rw [h.kept?_eq, hkept]; rfl
      simp only [kept?, discardEmpty, Table.get?_put_self, Table.remove_put,
        Table.remove_of_get?_eq_none hnone, Option.join_some]

/-- A call of the cache. What the source has and what of it compiles may be different each time. -/
inductive Call (σ : Type)
  | get (source : RuleSource) (compile : List Rule → Except Failure (Ruleset σ)) (uri : String)
  | evict (uri : String)
  | clear

/-- The calls that have been made, the latest one first. -/
abbrev History (σ : Type) := List (Call σ)

def after (cache : RulesetCache σ) : Call σ → RulesetCache σ
  | .get source compile uri => (cache.get source compile uri).2
  | .evict uri => cache.evict uri
  | .clear => cache.clear

/-- The cache after the calls. It keeps nothing at first. -/
def ofHistory (refreshSeconds : Nat) : History σ → RulesetCache σ
  | [] => .empty refreshSeconds
  | call :: earlier => (ofHistory refreshSeconds earlier).after call

namespace Call

/-- The call is about the URI. -/
def Concerns (uri : String) : Call σ → Prop
  | get _ _ other | evict other => other = uri
  | clear => True

/-- What is kept under the URI goes. -/
def GivesUp (uri : String) : Call σ → Prop
  | get .. => False
  | evict other => other = uri
  | clear => True

/-- The source is asked for the URI, and what it has is loaded. -/
def Loads (cache : RulesetCache σ) (uri : String) (loaded : LoadedRuleset σ) : Call σ → Prop
  | get source compile other =>
    other = uri ∧ (cache.get source compile uri).2.asked = cache.asked + 1 ∧
      Finds source compile uri loaded.ruleset ∧ loaded.load = cache.loads + 1
  | evict _ | clear => False

theorem GivesUp.concerns {call : Call σ} (h : call.GivesUp uri) : call.Concerns uri := by
  cases call with
  | get source compile other => cases h
  | evict other => exact h
  | clear => exact h

theorem Loads.concerns {call : Call σ} (h : call.Loads cache uri loaded) : call.Concerns uri := by
  cases call with
  | get source compile other => exact h.1
  | evict other => cases h
  | clear => cases h

theorem Loads.unique {call : Call σ} {found : LoadedRuleset σ} (h : call.Loads cache uri loaded)
    (h' : call.Loads cache uri found) : loaded = found := by
  cases call with
  | get source compile other =>
    obtain ⟨ruleset, load⟩ := loaded
    obtain ⟨ruleset', load'⟩ := found
    obtain ⟨-, -, hfinds, rfl⟩ := h
    obtain ⟨-, -, hfinds', rfl⟩ := h'
    exact congrArg (LoadedRuleset.mk · _) (hfinds.unique hfinds')
  | evict other => cases h
  | clear => cases h

end Call

/-- This is the latest load of the URI, which has not been given up since. -/
inductive Latest (refreshSeconds : Nat) (uri : String) : History σ → LoadedRuleset σ → Prop
  | loads {call : Call σ} {earlier : History σ} {loaded : LoadedRuleset σ}
    (h : call.Loads (ofHistory refreshSeconds earlier) uri loaded) :
    Latest refreshSeconds uri (call :: earlier) loaded
  | stays {call : Call σ} {earlier : History σ} {loaded : LoadedRuleset σ}
    (h : Latest refreshSeconds uri earlier loaded) (hheld : ¬ call.GivesUp uri)
    (hnone : ∀ other, ¬ call.Loads (ofHistory refreshSeconds earlier) uri other) :
    Latest refreshSeconds uri (call :: earlier) loaded

theorem latest_cons_iff {refreshSeconds : Nat} {call : Call σ} {earlier : History σ} :
    Latest refreshSeconds uri (call :: earlier) loaded ↔
      call.Loads (ofHistory refreshSeconds earlier) uri loaded ∨
        Latest refreshSeconds uri earlier loaded ∧ ¬ call.GivesUp uri ∧
          ∀ other, ¬ call.Loads (ofHistory refreshSeconds earlier) uri other := by
  constructor
  · rintro (h | ⟨h, hheld, hnone⟩)
    · exact .inl h
    · exact .inr ⟨h, hheld, hnone⟩
  · rintro (h | ⟨h, hheld, hnone⟩)
    · exact .loads h
    · exact .stays h hheld hnone

theorem fresh?_eq_some_iff :
    cache.fresh? uri = some loaded ↔ cache.refreshSeconds ≠ 0 ∧ cache.kept? uri = some loaded := by
  unfold fresh?
  split
  · next hzero => exact ⟨fun h => (by cases h), fun h => absurd hzero h.1⟩
  · next hpositive => exact ⟨fun h => ⟨hpositive, h⟩, And.right⟩

/-- A lookup that loads a ruleset puts it into the slot of the URI. Any other one leaves all slots as
they were, even if it had to open one. -/
theorem Filled.slots_get (h : cache.Filled) (source : RuleSource)
    (compile : List Rule → Except Failure (Ruleset σ)) (uri : String) :
    (∃ loaded, (Call.get source compile uri).Loads cache uri loaded ∧
      (cache.get source compile uri).2.slots = Table.put cache.slots uri (some loaded)) ∨
    (∀ loaded, ¬ (Call.get source compile uri).Loads cache uri loaded) ∧
      (cache.get source compile uri).2.slots = cache.slots := by
  rcases h.get_cases source compile uri with
    ⟨kept, -, hget⟩ | ⟨-, ⟨ruleset, hfinds, hget⟩ | ⟨failure, hmisses, hmissed⟩⟩
  · refine .inr ⟨?_, by rw [hget]⟩
    rintro loaded ⟨-, hasked, -⟩
    rw [hget] at hasked
    exact Nat.ne_of_lt (Nat.lt_succ_self _) hasked
  · exact .inl ⟨⟨ruleset, cache.loads + 1⟩, ⟨rfl, by rw [hget]; rfl, hfinds, rfl⟩,
      by rw [hget]; rfl⟩
  · refine .inr ⟨fun loaded hloads => hmisses.not_finds hloads.2.2.1, ?_⟩
    rcases hmissed with ⟨stale, -, hget⟩ | ⟨-, hget⟩
    · rw [hget]
    · rw [hget]

/-- A call leaves the slots of all URIs that it is not about. -/
theorem Filled.get?_after_of_not_concerns (h : cache.Filled) {call : Call σ}
    (hcall : ¬ call.Concerns uri) :
    Table.get? (cache.after call).slots uri = Table.get? cache.slots uri := by
  cases call with
  | get source compile other =>
    rcases h.slots_get source compile other with ⟨loaded, -, hslots⟩ | ⟨-, hslots⟩
    · exact (congrArg (Table.get? · uri) hslots).trans (Table.get?_put_of_ne _ _ hcall)
    · exact congrArg (Table.get? · uri) hslots
  | evict other => exact Table.get?_remove_of_ne _ hcall
  | clear => exact absurd trivial hcall

theorem Filled.after (h : cache.Filled) (call : Call σ) : (cache.after call).Filled := by
  intro uri
  by_cases hcall : call.Concerns uri
  · cases call with
    | get source compile other =>
      obtain rfl : other = uri := hcall
      rw [RulesetCache.after]
      rcases h.slots_get source compile other with ⟨loaded, -, hslots⟩ | ⟨-, hslots⟩
      · rw [hslots, Table.get?_put_self]
        exact fun hempty => by cases hempty
      · rw [hslots]
        exact h other
    | evict other =>
      obtain rfl : other = uri := hcall
      rw [RulesetCache.after, evict, Table.get?_remove_self]
      exact fun hempty => by cases hempty
    | clear => exact fun hempty => by cases hempty
  · rw [h.get?_after_of_not_concerns hcall]
    exact h uri

theorem Filled.refreshSeconds_after (h : cache.Filled) (call : Call σ) :
    (cache.after call).refreshSeconds = cache.refreshSeconds := by
  cases call with
  | get source compile uri =>
    rw [RulesetCache.after]
    rcases h.get_cases source compile uri with
      ⟨_, -, hget⟩ | ⟨-, ⟨_, -, hget⟩ | ⟨_, -, ⟨_, -, hget⟩ | ⟨-, hget⟩⟩⟩ <;> rw [hget]
    rfl
  | evict uri => rfl
  | clear => rfl

/-- What a call leaves under a URI: what it has loaded, or else what was kept, unless it gives that
up. -/
theorem Filled.kept?_after_iff (h : cache.Filled) (call : Call σ) :
    (cache.after call).kept? uri = some loaded ↔
      call.Loads cache uri loaded ∨
        cache.kept? uri = some loaded ∧ ¬ call.GivesUp uri ∧
          ∀ other, ¬ call.Loads cache uri other := by
  by_cases hcall : call.Concerns uri
  · cases call with
    | get source compile other =>
      obtain rfl : other = uri := hcall
      rw [RulesetCache.after, kept?]
      rcases h.slots_get source compile other with ⟨found, hfound, hslots⟩ | ⟨hnone, hslots⟩
      · rw [hslots, Table.get?_put_self]
        constructor
        · intro hloaded
          cases hloaded
          exact .inl hfound
        · rintro (hloads | ⟨-, -, hnone⟩)
          · rw [hfound.unique hloads]
            rfl
          · exact absurd hfound (hnone found)
      · rw [hslots]
        exact ⟨fun hkept => .inr ⟨hkept, not_false, hnone⟩,
          fun hcases => (hcases.resolve_left (hnone loaded)).1⟩
    | evict other =>
      obtain rfl : other = uri := hcall
      rw [RulesetCache.after, kept?, evict, Table.get?_remove_self]
      refine ⟨fun hkept => (by cases hkept), ?_⟩
      rintro (hloads | ⟨-, hheld, -⟩)
      · cases hloads
      · exact absurd rfl hheld
    | clear =>
      refine ⟨fun hkept => (by cases hkept), ?_⟩
      rintro (hloads | ⟨-, hheld, -⟩)
      · cases hloads
      · exact absurd trivial hheld
  · have hslot := h.get?_after_of_not_concerns hcall
    have hloads : ∀ other, ¬ call.Loads cache uri other := fun _ hloads => hcall hloads.concerns
    rw [kept?, hslot]
    exact ⟨fun hkept => .inr ⟨hkept, fun hup => hcall hup.concerns, hloads⟩,
      fun hcases => (hcases.resolve_left (hloads loaded)).1⟩

variable (refreshSeconds : Nat) (history : History σ)

theorem filled_ofHistory : (ofHistory refreshSeconds history).Filled := by
  induction history with
  | nil => exact fun uri hempty => by cases hempty
  | cons call earlier ih => exact ih.after call

theorem refreshSeconds_ofHistory :
    (ofHistory refreshSeconds history).refreshSeconds = refreshSeconds := by
  induction history with
  | nil => rfl
  | cons call earlier ih =>
    exact ((filled_ofHistory refreshSeconds earlier).refreshSeconds_after call).trans ih

/-- What is kept under a URI is the latest load of it. -/
theorem kept?_ofHistory_iff : (ofHistory refreshSeconds history).kept? uri = some loaded ↔
    Latest refreshSeconds uri history loaded := by
  induction history generalizing loaded with
  | nil => exact ⟨fun hkept => (by cases hkept), fun hlatest => (by cases hlatest)⟩
  | cons call earlier ih =>
    rw [ofHistory, (filled_ofHistory refreshSeconds earlier).kept?_after_iff, latest_cons_iff, ih]

/-- How a lookup is answered where `latest` says what the URI has been loaded with. -/
structure Serves (cache : RulesetCache σ) (latest : LoadedRuleset σ → Prop) (source : RuleSource)
    (compile : List Rule → Except Failure (Ruleset σ)) (uri : String) : Prop where
  /-- Without a ruleset that has not expired the source is asked. -/
  asks : (cache.refreshSeconds = 0 ∨ ∀ loaded, ¬ latest loaded) →
    (cache.get source compile uri).2.asked = cache.asked + 1
  /-- A ruleset that has not expired is the answer, whatever the source would say. -/
  fresh : ∀ loaded, latest loaded → cache.refreshSeconds ≠ 0 →
    cache.get source compile uri = (.ok loaded, cache)
  /-- What is loaded then is the answer. -/
  loads : (cache.refreshSeconds = 0 ∨ ∀ loaded, ¬ latest loaded) → ∀ ruleset,
    Finds source compile uri ruleset →
      (cache.get source compile uri).1 = .ok ⟨ruleset, cache.loads + 1⟩
  /-- If nothing can be loaded, the latest load is still the answer. -/
  stale : ∀ loaded, latest loaded → ∀ failure, Misses source compile uri failure →
    (cache.get source compile uri).1 = .ok loaded
  /-- A lookup fails, as the load did, just if there is nothing that could serve. -/
  fails : ∀ failure, (cache.get source compile uri).1 = .error failure ↔
    Misses source compile uri failure ∧ ∀ loaded, ¬ latest loaded

theorem Filled.serves (h : cache.Filled) (source : RuleSource)
    (compile : List Rule → Except Failure (Ruleset σ)) (uri : String) :
    cache.Serves (fun loaded => cache.kept? uri = some loaded) source compile uri := by
  rcases h.get_cases source compile uri with
    ⟨kept, hfresh, hget⟩ | ⟨hexpired, ⟨ruleset, hfinds, hget⟩ | ⟨failure, hmisses, hmissed⟩⟩
  · obtain ⟨hpositive, hkept⟩ := fresh?_eq_some_iff.mp hfresh
    have hunexpired : ¬ (cache.refreshSeconds = 0 ∨ ∀ loaded, ¬ cache.kept? uri = some loaded) :=
      fun hnone => hnone.elim hpositive fun hnone => hnone kept hkept
    refine ⟨fun hnone => absurd hnone hunexpired, fun loaded hloaded _ => ?_,
      fun hnone => absurd hnone hunexpired, fun loaded hloaded _ _ => ?_, fun failure => ?_⟩
    · rw [hget, Option.some.inj (hkept.symm.trans hloaded)]
    · rw [hget, Option.some.inj (hkept.symm.trans hloaded)]
    · rw [hget]
      exact ⟨fun hfailed => (by cases hfailed), fun hnone => absurd hkept (hnone.2 kept)⟩
  · refine ⟨fun _ => by rw [hget]; rfl, fun loaded hloaded hpositive => ?_,
      fun _ found hfound => ?_, fun loaded _ failure hmisses => ?_, fun failure => ?_⟩
    · exact absurd (fresh?_eq_some_iff.mpr ⟨hpositive, hloaded⟩) (by simp [hexpired])
    · rw [hget, hfinds.unique hfound]
    · exact absurd hfinds hmisses.not_finds
    · rw [hget]
      exact ⟨fun hfailed => (by cases hfailed), fun hnone => absurd hfinds hnone.1.not_finds⟩
  · have hasked : (cache.get source compile uri).2.asked = cache.asked + 1 := by
      rcases hmissed with ⟨stale, -, hget⟩ | ⟨-, hget⟩ <;> rw [hget]
    refine ⟨fun _ => hasked, fun loaded hloaded hpositive => ?_,
      fun _ found hfound => absurd hfound hmisses.not_finds, fun loaded hloaded _ _ => ?_,
      fun other => ?_⟩
    · exact absurd (fresh?_eq_some_iff.mpr ⟨hpositive, hloaded⟩) (by simp [hexpired])
    · rcases hmissed with ⟨stale, hstale, hget⟩ | ⟨hnone, -⟩
      · rw [hget, Option.some.inj (hstale.symm.trans hloaded)]
      · rw [hnone] at hloaded
        cases hloaded
    · rcases hmissed with ⟨stale, hstale, hget⟩ | ⟨hnone, hget⟩
      · rw [hget]
        exact ⟨fun hfailed => (by cases hfailed), fun hnone => absurd hstale (hnone.2 stale)⟩
      · rw [hget, hnone]
        refine ⟨fun hfailed => ?_, fun hother => ?_⟩
        · cases hfailed
          exact ⟨hmisses, fun loaded hloaded => by cases hloaded⟩
        · rw [hmisses.unique hother.1]

/-- After any calls, the slots are those of the URIs that have been loaded since they were last given
up, and none of them is empty. Lookups are answered by what was loaded latest, and no call touches
the slot of a URI that it is not about. -/
theorem history_decides (refreshSeconds : Nat) (history : History σ) :
    (ofHistory refreshSeconds history).refreshSeconds = refreshSeconds ∧
    (∀ uri, Table.has (ofHistory refreshSeconds history).slots uri = true ↔
      ∃ loaded, Latest refreshSeconds uri history loaded) ∧
    (∀ uri, Table.get? (ofHistory refreshSeconds history).slots uri ≠ some none) ∧
    (∀ source compile uri, (ofHistory refreshSeconds history).Serves
      (Latest refreshSeconds uri history) source compile uri) ∧
    ∀ (call : Call σ) uri, ¬ call.Concerns uri →
      Table.get? ((ofHistory refreshSeconds history).after call).slots uri =
        Table.get? (ofHistory refreshSeconds history).slots uri := by
  have hfilled := filled_ofHistory refreshSeconds history
  have hkept : ∀ uri loaded, (ofHistory refreshSeconds history).kept? uri = some loaded ↔
      Latest refreshSeconds uri history loaded :=
    fun _ _ => kept?_ofHistory_iff refreshSeconds history
  refine ⟨refreshSeconds_ofHistory _ _, fun uri => ?_, hfilled, fun source compile uri => ?_,
    fun call uri hcall => ?_⟩
  · rw [Table.has, hfilled.kept?_eq, Option.isSome_map, Option.isSome_iff_exists]
    exact exists_congr (hkept uri)
  · have hserves := hfilled.serves source compile uri
    rwa [funext fun loaded => propext (hkept uri loaded)] at hserves
  · exact hfilled.get?_after_of_not_concerns hcall

end RulesetCache
end Rulebook
