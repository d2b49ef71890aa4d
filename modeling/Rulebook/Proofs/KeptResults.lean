import Rulebook.Proofs.Evaluation

/-!
# Results that are kept

What holds of every result in a function cache goes on to hold, whatever is removed, as long as it
holds of the results that are stored. `Session.call_all` and `Session.call_result` say what a call
relies on and what it gives; statements about caching go through these two.
-/
namespace Rulebook

namespace FunctionCache

variable {R : String → String → Json → Prop} {cache : FunctionCache}

/-- Every result that is kept stands in a relation to the name and the key it is kept under. -/
def All (R : String → String → Json → Prop) (cache : FunctionCache) : Prop :=
  ∀ entry ∈ cache.entries, R entry.function entry.key entry.value

theorem all_empty (R : String → String → Json → Prop) (policy : CachePolicy) :
    (FunctionCache.empty policy).All R := by
  intro entry hentry
  cases hentry

theorem All.filter (h : cache.All R) (test : Entry → Bool) :
    All R { cache with entries := cache.entries.filter test } :=
  fun entry hentry => h entry (List.mem_filter.mp hentry).1

theorem All.drop (h : cache.All R) (function key : String) : (cache.drop function key).All R :=
  h.filter _

theorem All.sweep (h : cache.All R) : cache.sweep.All R := h.filter _

theorem All.store (h : cache.All R) {function key : String} {value : Json}
    (hv : R function key value) : (cache.store function key value).All R := by
  have hfilled : All R
      { cache.tick with
        entries := ⟨function, key, value, cache.policy.lifetimeOf function, cache.clock.now⟩ ::
          (cache.drop function key).entries
        stored := cache.stored + 1 } := by
    intro entry hentry
    rcases List.mem_cons.mp hentry with rfl | hentry
    · exact hv
    · exact h.drop function key entry hentry
  unfold FunctionCache.store
  dsimp only
  split
  · exact hfilled.sweep
  · exact hfilled

/-- A result is found only under its own name and key. -/
theorem All.of_fresh (h : cache.All R) {function key : String} {value : Json}
    (hfresh : cache.fresh? function key = some value) : R function key value := by
  unfold fresh? find? at hfresh
  split at hfresh
  · next entry hfind =>
    split at hfresh
    · cases hfresh
    · cases hfresh
      have hmem := h entry (List.mem_of_find?_eq_some hfind)
      have hfor := List.find?_some hfind
      simp only [Entry.isFor, Bool.and_eq_true, decide_eq_true_eq] at hfor
      rwa [hfor.1, hfor.2] at hmem
  · cases hfresh

/-- What may be done to a cache between two calls. -/
inductive Upkeep
  | evict (function : String)
  | sweep
  | clear

def upkeep (cache : FunctionCache) : Upkeep → FunctionCache
  | .evict function => cache.evict function
  | .sweep => cache.sweep
  | .clear => cache.clear

theorem All.upkeep (h : cache.All R) (change : Upkeep) : (cache.upkeep change).All R := by
  cases change with
  | evict function => exact h.filter _
  | sweep => exact h.sweep
  | clear =>
    intro entry hentry
    cases hentry

end FunctionCache

namespace Session

variable {σ : Type} {R : String → String → Json → Prop} {name : String} {function : Function σ}
  {arguments : Arguments} {session : Session σ}

theorem callDirectly_eq : session.callDirectly function arguments =
    ((function.call arguments session.world).1,
      { session with world := (function.call arguments session.world).2 }) := rfl

/-- A call keeps what holds of all results, if it holds of what the function returns. -/
theorem call_all (h : session.cache.All R)
    (hf : ∀ world value, (function.call arguments world).1 = .ok value →
      R name arguments.key value) :
    (session.call name function arguments).2.cache.All R := by
  unfold Session.call
  split
  · exact h
  · split
    · exact h
    · have hdrop : (session.cache.drop name arguments.key).tick.All R := h.drop name arguments.key
      simp only [callDirectly_eq]
      cases hc : (function.call arguments session.world).1 with
      | error failure => exact hdrop
      | ok value => exact hdrop.store (hf session.world value hc)

/-- A call gives a result that is kept, or what the function returns now. -/
theorem call_result (h : session.cache.All R) (name : String) (function : Function σ)
    (arguments : Arguments) :
    (∃ value, (session.call name function arguments).1 = .ok value ∧
      R name arguments.key value) ∨
    (session.call name function arguments).1 = (function.call arguments session.world).1 := by
  unfold Session.call
  split
  · exact .inr rfl
  · split
    · next value hfresh => exact .inl ⟨value, rfl, h.of_fresh hfresh⟩
    · refine .inr ?_
      simp only [callDirectly_eq]
      cases (function.call arguments session.world).1 <;> rfl

end Session
end Rulebook
