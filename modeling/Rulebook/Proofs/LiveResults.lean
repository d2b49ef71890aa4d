import Rulebook.Proofs.KeptResults

/-!
# How long results are kept

By a clock that stands still a result has ended just if its lifetime is zero. Such results go with
every 256th result that is stored, if not before, so that there are never as many of them. All
others stay until their function is evicted or the cache is cleared; until then no call with the
same arguments reaches the function again.
-/
namespace Rulebook

variable {σ : Type}

namespace FunctionCache

variable {cache : FunctionCache} {policy : CachePolicy} {function key : String} {value : Json}
  {entry : Entry}

def Still (cache : FunctionCache) : Prop := cache.clock.shows = Clock.still.shows

@[simp] theorem sweep_policy (cache : FunctionCache) : cache.sweep.policy = cache.policy := rfl

@[simp] theorem sweep_shows (cache : FunctionCache) :
    cache.sweep.clock.shows = cache.clock.shows := rfl

/-- How many of the results have a lifetime of zero. -/
def ended (cache : FunctionCache) : Nat := cache.entries.countP fun entry => entry.lifetime = 0

namespace Still

theorem sweep (h : cache.Still) : cache.sweep.Still := by
  rw [Still, sweep_shows, h]

theorem hasEnded_eq (h : cache.Still) (entry : Entry) :
    entry.hasEnded cache.clock.now = decide (entry.lifetime = 0) := by
  have hnow : cache.clock.now = 0 := by
    rw [Clock.now, h]
    rfl
  have hsecond : Clock.second ≠ 0 := by decide
  rw [Entry.hasEnded, hnow, decide_eq_decide, Nat.zero_sub, Nat.le_zero, Nat.mul_eq_zero,
    or_iff_left hsecond]

theorem mem_sweep (h : cache.Still) :
    entry ∈ cache.sweep.entries ↔ entry ∈ cache.entries ∧ entry.lifetime ≠ 0 := by
  simp [FunctionCache.sweep, h.hasEnded_eq]

theorem ended_sweep (h : cache.Still) : cache.sweep.ended = 0 := by
  refine List.countP_eq_zero.mpr fun entry hentry => ?_
  simpa using (h.mem_sweep.mp hentry).2

end Still

/-- The clock stands still, and each result has the lifetime that the policy gives its function. -/
structure Steady (policy : CachePolicy) (cache : FunctionCache) : Prop where
  policy_eq : cache.policy = policy
  still : cache.Still
  lifetime_eq : ∀ entry ∈ cache.entries, entry.lifetime = policy.lifetimeOf entry.function
  /-- Results that have ended were stored after the last sweep. -/
  ended_le : cache.ended ≤ cache.stored % sweepInterval

theorem isFor_iff : entry.isFor function key = true ↔ entry.function = function ∧ entry.key = key := by
  simp [Entry.isFor]

theorem mem_drop : entry ∈ (cache.drop function key).entries ↔
    entry ∈ cache.entries ∧ ¬ entry.isFor function key = true := by
  simp [drop]

theorem mem_of_mem_sweep (h : entry ∈ cache.sweep.entries) : entry ∈ cache.entries := by
  rw [sweep] at h
  exact (List.mem_filter.mp h).1

/-- The cache with one more result, before it is swept. -/
def filled (cache : FunctionCache) (function key : String) (value : Json) : FunctionCache :=
  { cache.tick with
    entries :=
      ⟨function, key, value, cache.policy.lifetimeOf function, cache.clock.now⟩ ::
        (cache.drop function key).entries
    stored := cache.stored + 1 }

theorem store_eq (cache : FunctionCache) (function key : String) (value : Json) :
    cache.store function key value =
      if (cache.stored + 1) % sweepInterval = 0 then (cache.filled function key value).sweep
      else cache.filled function key value := rfl

/-- What is stored is the result and what was there before. -/
theorem mem_of_mem_store (h : entry ∈ (cache.store function key value).entries) :
    (entry.function = function ∧ entry.key = key ∧ entry.value = value) ∨
      entry ∈ cache.entries := by
  have hfilled : entry ∈ (cache.filled function key value).entries := by
    rw [store_eq] at h
    split at h
    · exact mem_of_mem_sweep h
    · exact h
  rcases List.mem_cons.mp hfilled with rfl | hdrop
  · exact .inl ⟨rfl, rfl, rfl⟩
  · exact .inr (mem_drop.mp hdrop).1

namespace Steady

theorem empty (policy : CachePolicy) : (FunctionCache.empty policy).Steady policy where
  policy_eq := rfl
  still := rfl
  lifetime_eq := List.forall_mem_nil _
  ended_le := Nat.zero_le _

theorem ended_lt (h : cache.Steady policy) : cache.ended < sweepInterval :=
  Nat.lt_of_le_of_lt h.ended_le (Nat.mod_lt _ (by decide))

theorem tick (h : cache.Steady policy) : cache.tick.Steady policy :=
  ⟨h.policy_eq, h.still, h.lifetime_eq, h.ended_le⟩

theorem filter (h : cache.Steady policy) (test : Entry → Bool) :
    Steady policy { cache with entries := cache.entries.filter test } where
  policy_eq := h.policy_eq
  still := h.still
  lifetime_eq entry hentry := h.lifetime_eq entry ((List.mem_filter.mp hentry).1)
  ended_le := Nat.le_trans List.filter_sublist.countP_le h.ended_le

theorem upkeep (h : cache.Steady policy) (change : Upkeep) : (cache.upkeep change).Steady policy := by
  cases change with
  | evict function => exact h.filter _
  | sweep => exact (h.filter _).tick
  | clear => exact ⟨h.policy_eq, h.still, List.forall_mem_nil _, Nat.zero_le _⟩

/-- Storing adds at most one result that has ended; where that would fill the interval, all of them
go. -/
theorem store (h : cache.Steady policy) (function key : String) (value : Json) :
    (cache.store function key value).Steady policy := by
  have hstill : (cache.filled function key value).Still := h.still
  have hlifetime : ∀ entry ∈ (cache.filled function key value).entries,
      entry.lifetime = policy.lifetimeOf entry.function := by
    intro entry hentry
    rcases List.mem_cons.mp hentry with rfl | hentry
    · dsimp only
      rw [h.policy_eq]
    · exact h.lifetime_eq entry (mem_drop.mp hentry).1
  rw [store_eq]
  split
  · refine ⟨?_, hstill.sweep, fun entry hentry => ?_, ?_⟩
    · rw [sweep_policy]
      exact h.policy_eq
    · exact hlifetime entry (hstill.mem_sweep.mp hentry).1
    · rw [hstill.ended_sweep]
      exact Nat.zero_le _
  · next hmod =>
    refine ⟨h.policy_eq, hstill, hlifetime, ?_⟩
    have hdrop := (h.filter fun entry => !entry.isFor function key).ended_le
    have hmore : (cache.filled function key value).ended ≤ (cache.drop function key).ended + 1 := by
      unfold ended filled
      rw [List.countP_cons]
      split <;> omega
    have hstored : (cache.filled function key value).stored = cache.stored + 1 := rfl
    have hinterval : sweepInterval = 256 := rfl
    change (cache.drop function key).ended ≤ cache.stored % sweepInterval at hdrop
    rw [hinterval] at hdrop hmod
    rw [hstored, hinterval]
    omega

/-- Where no result is found, there is none but such as have ended. -/
theorem lifetime_of_fresh_none (h : cache.Steady policy) (hnone : cache.fresh? function key = none)
    (hentry : entry ∈ cache.entries) (hfor : entry.isFor function key = true) :
    entry.lifetime = 0 := by
  unfold fresh? find? at hnone
  split at hnone
  · next found hfind =>
    split at hnone
    · next hended =>
      rw [h.still.hasEnded_eq, decide_eq_true_iff] at hended
      have hfor' : found.isFor function key = true := by simpa using List.find?_some hfind
      have hfound := isFor_iff.mp hfor'
      rw [h.lifetime_eq found (List.mem_of_find?_eq_some hfind), hfound.1] at hended
      rw [h.lifetime_eq entry hentry, (isFor_iff.mp hfor).1, hended]
    · cases hnone
  · next hfind => exact absurd hfor (List.find?_eq_none.mp hfind entry hentry)

/-- Storing a result that was not found leaves all results that have not ended. -/
theorem mem_store (h : cache.Steady policy) (hentry : entry ∈ cache.entries)
    (hlive : entry.lifetime ≠ 0) (hfor : ¬ entry.isFor function key = true) :
    entry ∈ (cache.store function key value).entries := by
  have hstill : (cache.filled function key value).Still := h.still
  have hfilled : entry ∈ (cache.filled function key value).entries :=
    List.mem_cons_of_mem _ (mem_drop.mpr ⟨hentry, hfor⟩)
  rw [store_eq]
  split
  · exact hstill.mem_sweep.mpr ⟨hfilled, hlive⟩
  · exact hfilled

/-- A result that is stored is there, unless its lifetime is zero. -/
theorem exists_of_store (h : cache.Steady policy) (hlive : policy.lifetimeOf function ≠ 0) :
    ∃ entry ∈ (cache.store function key value).entries, entry.isFor function key = true ∧
      entry.lifetime ≠ 0 := by
  have hstill : (cache.filled function key value).Still := h.still
  rw [← h.policy_eq] at hlive
  refine ⟨⟨function, key, value, cache.policy.lifetimeOf function, cache.clock.now⟩, ?_,
    isFor_iff.mpr ⟨rfl, rfl⟩, hlive⟩
  rw [store_eq]
  split
  · exact hstill.mem_sweep.mpr ⟨List.mem_cons_self, hlive⟩
  · exact List.mem_cons_self

end Steady

/-- The change takes results of the function out that have not ended. -/
def Upkeep.Removes (function : String) : Upkeep → Prop
  | .evict evicted => evicted = function
  | .sweep => False
  | .clear => True

theorem Steady.mem_upkeep (h : cache.Steady policy) {change : Upkeep}
    (hchange : ¬ change.Removes entry.function) (hentry : entry ∈ cache.entries)
    (hlive : entry.lifetime ≠ 0) : entry ∈ (cache.upkeep change).entries := by
  cases change with
  | evict function =>
    have hne : entry.function ≠ function := fun heq => hchange heq.symm
    simpa [FunctionCache.upkeep, evict, hne] using hentry
  | sweep => exact h.still.mem_sweep.mpr ⟨hentry, hlive⟩
  | clear => exact absurd trivial hchange

theorem mem_of_mem_upkeep {change : Upkeep} (h : entry ∈ (cache.upkeep change).entries) :
    entry ∈ cache.entries := by
  cases change with
  | evict function => exact (List.mem_filter.mp h).1
  | sweep => exact mem_of_mem_sweep h
  | clear => cases h

end FunctionCache

namespace Session

variable {session : Session σ} {name : String} {function : Function σ} {arguments : Arguments}
  {policy : CachePolicy}

/-- How a call comes by its answer, and what it leaves. -/
inductive Answered (session : Session σ) (name : String) (function : Function σ)
    (arguments : Arguments) : Except Failure Json × Session σ → Prop
  | direct (hkeeps : session.cache.policy.keeps name = false) :
    Answered session name function arguments (session.callDirectly function arguments)
  | kept {value : Json} (hfresh : session.cache.fresh? name arguments.key = some value) :
    Answered session name function arguments
      (.ok value, { session with cache := session.cache.tick })
  | failed {failure : Failure} {world : σ}
    (hfresh : session.cache.fresh? name arguments.key = none)
    (hcall : function.call arguments session.world = (.error failure, world)) :
    Answered session name function arguments
      (.error failure, ⟨(session.cache.drop name arguments.key).tick, world⟩)
  | stored {value : Json} {world : σ} (hkeeps : session.cache.policy.keeps name = true)
    (hfresh : session.cache.fresh? name arguments.key = none)
    (hcall : function.call arguments session.world = (.ok value, world)) :
    Answered session name function arguments
      (.ok value,
        ⟨(session.cache.drop name arguments.key).tick.store name arguments.key value, world⟩)

theorem call_answered (session : Session σ) (name : String) (function : Function σ)
    (arguments : Arguments) :
    session.Answered name function arguments (session.call name function arguments) := by
  unfold Session.call
  split
  · next hkeeps => exact .direct (by simpa using hkeeps)
  · next hkeeps =>
    split
    · next value hfresh => exact .kept hfresh
    · next hfresh =>
      simp only [callDirectly_eq]
      rcases hcall : function.call arguments session.world with ⟨failure | value, world⟩
      · exact .failed hfresh hcall
      · exact .stored (by simpa using hkeeps) hfresh hcall

end Session

/-- What is done to a session: a function is called, or the upkeep of the cache is done. -/
inductive Operation (σ : Type)
  | call (name : String) (function : Function σ) (arguments : Arguments)
  | upkeep (change : FunctionCache.Upkeep)

/-- The operation takes results of the function out that have not ended. -/
def Operation.Removes (name : String) : Operation σ → Prop
  | .call _ _ _ => False
  | .upkeep change => change.Removes name

/-- The function with a record of the calls that it has answered with a value, the last one
first. -/
def Function.recorded (name : String) (function : Function σ) :
    Function (σ × List (String × Arguments)) where
  returns := function.returns
  call arguments world :=
    match function.call arguments world.1 with
    | (.ok value, after) => (.ok value, (after, (name, arguments) :: world.2))
    | (.error failure, after) => (.error failure, (after, world.2))

theorem Function.recorded_record {name : String} {function : Function σ} {arguments : Arguments}
    {world after : σ × List (String × Arguments)} {result : Except Failure Json}
    (h : (function.recorded name).call arguments world = (result, after)) :
    after.2 = match result with
      | .ok _ => (name, arguments) :: world.2
      | .error _ => world.2 := by
  dsimp only [Function.recorded] at h
  split at h <;> cases h <;> rfl

def Operation.recorded : Operation σ → Operation (σ × List (String × Arguments))
  | .call name function arguments => .call name (function.recorded name) arguments
  | .upkeep change => .upkeep change

namespace Session

variable {session : Session σ} {policy : CachePolicy} {entry : FunctionCache.Entry}
  {operation : Operation σ} {operations : List (Operation σ)}

def perform (session : Session σ) : Operation σ → Session σ
  | .call name function arguments => (session.call name function arguments).2
  | .upkeep change => { session with cache := session.cache.upkeep change }

def performAll (session : Session σ) (operations : List (Operation σ)) : Session σ :=
  operations.foldl perform session

theorem steady_perform (h : session.cache.Steady policy) (operation : Operation σ) :
    (session.perform operation).cache.Steady policy := by
  cases operation with
  | call name function arguments =>
    have hdrop := (h.filter fun entry => !entry.isFor name arguments.key).tick
    have hanswer := session.call_answered name function arguments
    rw [perform]
    generalize session.call name function arguments = answer at hanswer
    cases hanswer with
    | direct hkeeps => exact h
    | kept hfresh => exact h.tick
    | failed hfresh hcall => exact hdrop
    | stored hkeeps hfresh hcall => exact hdrop.store name arguments.key _
  | upkeep change => exact h.upkeep change

theorem steady_performAll (h : session.cache.Steady policy) (operations : List (Operation σ)) :
    (session.performAll operations).cache.Steady policy := by
  induction operations generalizing session with
  | nil => exact h
  | cons operation rest ih => exact ih (steady_perform h operation)

/-- A result that has not ended goes only with its function or with all others. -/
theorem mem_perform (h : session.cache.Steady policy)
    (hremoves : ¬ operation.Removes entry.function) (hentry : entry ∈ session.cache.entries)
    (hlive : entry.lifetime ≠ 0) : entry ∈ (session.perform operation).cache.entries := by
  cases operation with
  | call name function arguments =>
    have hfor : session.cache.fresh? name arguments.key = none →
        ¬ entry.isFor name arguments.key = true :=
      fun hnone hfor => hlive (h.lifetime_of_fresh_none hnone hentry hfor)
    have hanswer := session.call_answered name function arguments
    rw [perform]
    generalize session.call name function arguments = answer at hanswer
    cases hanswer with
    | direct hkeeps => exact hentry
    | kept hfresh => exact hentry
    | failed hfresh hcall => exact FunctionCache.mem_drop.mpr ⟨hentry, hfor hfresh⟩
    | stored hkeeps hfresh hcall =>
      have hdrop := (h.filter fun entry => !entry.isFor name arguments.key).tick
      exact hdrop.mem_store (FunctionCache.mem_drop.mpr ⟨hentry, hfor hfresh⟩) hlive (hfor hfresh)
  | upkeep change => exact h.mem_upkeep hremoves hentry hlive

/-- The operation is a call of a function whose results are kept, and the function answers it with
the result. -/
def Stores (session : Session σ) (operation : Operation σ) (entry : FunctionCache.Entry) : Prop :=
  ∃ function arguments, operation = .call entry.function function arguments ∧
    entry.key = arguments.key ∧ session.cache.policy.keeps entry.function = true ∧
    function.call arguments session.world = (.ok entry.value, (session.perform operation).world)

theorem stores_of_mem_perform (hafter : entry ∈ (session.perform operation).cache.entries) :
    entry ∈ session.cache.entries ∨ session.Stores operation entry := by
  cases operation with
  | call name function arguments =>
    have hanswer := session.call_answered name function arguments
    unfold Stores
    rw [perform] at hafter ⊢
    generalize session.call name function arguments = answer at hanswer hafter ⊢
    cases hanswer with
    | direct hkeeps => exact .inl hafter
    | kept hfresh => exact .inl hafter
    | failed hfresh hcall => exact .inl (FunctionCache.mem_drop.mp hafter).1
    | stored hkeeps hfresh hcall =>
      rcases FunctionCache.mem_of_mem_store hafter with ⟨rfl, hkey, rfl⟩ | hdrop
      · exact .inr ⟨function, arguments, rfl, hkey, hkeeps, hcall⟩
      · exact .inl (FunctionCache.mem_drop.mp hdrop).1
  | upkeep change => exact .inl (FunctionCache.mem_of_mem_upkeep hafter)

/-- The session before anything has been recorded. -/
def recording (session : Session σ) : Session (σ × List (String × Arguments)) :=
  ⟨session.cache, (session.world, [])⟩

/-- The calls that functions have answered with a value during the operations, the last one
first. -/
def successes (session : Session σ) (operations : List (Operation σ)) :
    List (String × Arguments) :=
  (session.recording.performAll (operations.map Operation.recorded)).world.2

/-- The session without the record. -/
def unrecorded (session : Session (σ × List (String × Arguments))) : Session σ :=
  ⟨session.cache, session.world.1⟩

variable {recorded : Session (σ × List (String × Arguments))}

theorem call_recorded (recorded : Session (σ × List (String × Arguments))) (name : String)
    (function : Function σ) (arguments : Arguments) :
    unrecorded (recorded.call name (function.recorded name) arguments).2 =
      (recorded.unrecorded.call name function arguments).2 := by
  have hpolicy : recorded.unrecorded.cache.policy = recorded.cache.policy := rfl
  have hfresh : recorded.unrecorded.cache.fresh? name arguments.key =
    recorded.cache.fresh? name arguments.key := rfl
  have hworld : recorded.unrecorded.world = recorded.world.1 := rfl
  unfold Session.call
  simp only [callDirectly_eq, Function.recorded, hpolicy, hfresh, hworld]
  cases recorded.cache.policy.keeps name with
  | false => rcases function.call arguments recorded.world.1 with ⟨_ | _, _⟩ <;> rfl
  | true =>
    cases recorded.cache.fresh? name arguments.key with
    | some value => rfl
    | none => rcases function.call arguments recorded.world.1 with ⟨_ | _, _⟩ <;> rfl

theorem unrecorded_perform (operation : Operation σ) :
    (recorded.perform operation.recorded).unrecorded = recorded.unrecorded.perform operation := by
  cases operation with
  | call name function arguments => exact recorded.call_recorded name function arguments
  | upkeep change => rfl

/-- Recording the calls changes nothing else. -/
theorem unrecorded_performAll (operations : List (Operation σ)) :
    (recorded.performAll (operations.map Operation.recorded)).unrecorded =
      recorded.unrecorded.performAll operations := by
  induction operations generalizing recorded with
  | nil => rfl
  | cons operation rest ih =>
    rw [List.map_cons, performAll, List.foldl_cons, ← performAll, ih, unrecorded_perform]
    rfl

/-- The calls of one function that have been recorded differ, and have results that are kept. -/
structure Once (name : String) (recorded : Session (σ × List (String × Arguments))) : Prop where
  distinct : (recorded.world.2.filter fun call => call.1 = name).Nodup
  kept : ∀ arguments, (name, arguments) ∈ recorded.world.2 →
    ∃ entry ∈ recorded.cache.entries, entry.isFor name arguments.key = true ∧ entry.lifetime ≠ 0

/-- What an operation adds to the record. -/
theorem record_perform (recorded : Session (σ × List (String × Arguments)))
    (operation : Operation σ) :
    (recorded.perform operation.recorded).world.2 = recorded.world.2 ∨
      ∃ name arguments,
        (recorded.perform operation.recorded).world.2 = (name, arguments) :: recorded.world.2 ∧
        (recorded.cache.policy.keeps name = true →
          recorded.cache.fresh? name arguments.key = none ∧ ∃ value,
            (recorded.perform operation.recorded).cache =
              (recorded.cache.drop name arguments.key).tick.store name arguments.key value) := by
  cases operation with
  | call name function arguments =>
    have hanswer := recorded.call_answered name (function.recorded name) arguments
    rw [Operation.recorded, perform]
    generalize recorded.call name (function.recorded name) arguments = answer at hanswer
    cases hanswer with
    | direct hkeeps =>
      rw [callDirectly_eq]
      rcases hcall : (function.recorded name).call arguments recorded.world with ⟨_ | _, _⟩
      · exact .inl (Function.recorded_record hcall)
      · refine .inr ⟨name, arguments, Function.recorded_record hcall, fun hkept => ?_⟩
        rw [hkeeps] at hkept
        cases hkept
    | kept hfresh => exact .inl rfl
    | failed hfresh hcall => exact .inl (by simpa using Function.recorded_record hcall)
    | stored hkeeps hfresh hcall =>
      exact .inr ⟨name, arguments, Function.recorded_record hcall, fun _ => ⟨hfresh, _, rfl⟩⟩
  | upkeep change => exact .inl rfl

theorem Once.perform {name : String} (h : recorded.Once name)
    (hsteady : recorded.cache.Steady policy) (hkeeps : policy.keeps name = true)
    (hlive : policy.lifetimeOf name ≠ 0) (hremoves : ¬ operation.Removes name) :
    (recorded.perform operation.recorded).Once name := by
  have hstays : ∀ entry ∈ recorded.cache.entries, entry.function = name → entry.lifetime ≠ 0 →
      entry ∈ (recorded.perform operation.recorded).cache.entries := by
    intro entry hentry hname hlive
    refine mem_perform hsteady ?_ hentry hlive
    rw [hname]
    cases operation <;> exact hremoves
  have hkept : ∀ arguments, (name, arguments) ∈ recorded.world.2 →
      ∃ entry ∈ (recorded.perform operation.recorded).cache.entries,
        entry.isFor name arguments.key = true ∧ entry.lifetime ≠ 0 := by
    intro arguments harguments
    obtain ⟨entry, hentry, hfor, hlive⟩ := h.kept arguments harguments
    exact ⟨entry, hstays entry hentry (FunctionCache.isFor_iff.mp hfor).1 hlive, hfor, hlive⟩
  rcases recorded.record_perform operation with hsame | ⟨called, arguments, hmore, hstored⟩
  · constructor
    · rw [hsame]
      exact h.distinct
    · rw [hsame]
      exact hkept
  · by_cases hname : called = name
    · subst hname
      rw [hsteady.policy_eq] at hstored
      obtain ⟨hfresh, value, hcache⟩ := hstored hkeeps
      -- A call that has been recorded has a result that would have been found.
      have hnew : (called, arguments) ∉ recorded.world.2 := by
        intro hold
        obtain ⟨entry, hentry, hfor, hlive⟩ := h.kept arguments hold
        exact hlive (hsteady.lifetime_of_fresh_none hfresh hentry hfor)
      have hdrop := (hsteady.filter fun entry => !entry.isFor called arguments.key).tick
      constructor
      · rw [hmore, List.filter_cons_of_pos (by simp), List.nodup_cons]
        exact ⟨fun hmem => hnew ((List.mem_filter.mp hmem).1), h.distinct⟩
      · intro other hother
        rw [hmore] at hother
        rcases List.mem_cons.mp hother with heq | hother
        · cases heq
          rw [hcache]
          exact hdrop.exists_of_store hlive
        · exact hkept other hother
    · constructor
      · rw [hmore, List.filter_cons_of_neg (by simpa using hname)]
        exact h.distinct
      · intro other hother
        rw [hmore] at hother
        rcases List.mem_cons.mp hother with heq | hother
        · cases heq
          exact absurd rfl hname
        · exact hkept other hother

theorem Once.performAll {name : String} (h : recorded.Once name)
    (hsteady : recorded.cache.Steady policy) (hkeeps : policy.keeps name = true)
    (hlive : policy.lifetimeOf name ≠ 0)
    (hremoves : ∀ operation ∈ operations, ¬ operation.Removes name) :
    (recorded.performAll (operations.map Operation.recorded)).Once name := by
  induction operations generalizing recorded with
  | nil => exact h
  | cons operation rest ih =>
    rw [List.forall_mem_cons] at hremoves
    exact ih (h.perform hsteady hkeeps hlive hremoves.1) (steady_perform hsteady _) hremoves.2

/-- After any history fewer than 256 results have ended, and what one more operation may do to the
others is this: a result goes only with its function or with all, and is stored only by a call that
its function answers. So, however the history goes on, a function whose results are kept answers no
two calls alike until its results are removed. -/
theorem results_kept (policy : CachePolicy) (world : σ) (history : List (Operation σ)) :
    let session := performAll ⟨.empty policy, world⟩ history
    session.cache.ended < 256 ∧
    (∀ operation, ∀ entry ∈ session.cache.entries, 0 < entry.lifetime →
      entry ∈ (session.perform operation).cache.entries ∨ operation.Removes entry.function) ∧
    (∀ operation, ∀ entry ∈ (session.perform operation).cache.entries,
      entry ∈ session.cache.entries ∨ session.Stores operation entry) ∧
    ∀ name, policy.keeps name = true → 0 < policy.lifetimeOf name →
      ∀ later, (∀ operation ∈ later, ¬ operation.Removes name) →
        ((session.successes later).filter fun call => call.1 = name).Nodup ∧
          (session.recording.performAll (later.map Operation.recorded)).unrecorded =
            session.performAll later := by
  intro session
  have hsteady : session.cache.Steady policy := steady_performAll (.empty policy) history
  refine ⟨hsteady.ended_lt, fun operation entry hentry hlive => ?_,
    fun operation entry hentry => stores_of_mem_perform hentry, ?_⟩
  · by_cases hremoves : operation.Removes entry.function
    · exact .inr hremoves
    · exact .inl (mem_perform hsteady hremoves hentry (Nat.ne_of_gt hlive))
  · intro name hkeeps hlive later hlater
    have honce : session.recording.Once name :=
      ⟨List.nodup_nil, fun arguments hnone => absurd hnone List.not_mem_nil⟩
    exact ⟨(honce.performAll hsteady hkeeps (Nat.ne_of_gt hlive) hlater).distinct,
      unrecorded_performAll later⟩

/-- Counts its calls, of which the first one fails. -/
def faltering : Function Nat where
  returns := .integer
  call _ calls :=
    (if calls = 0 then .error (.call "faltering" "") else .ok .null, calls + 1)

def falteringCall : Operation Nat := .call "faltering" faltering []

/-- Of three calls the first one fails and the last one finds the result of the second one. -/
theorem faltering_kept :
    let session : Session Nat :=
      performAll ⟨.empty ⟨true, 300, []⟩, 0⟩ [falteringCall, .upkeep .clear]
    let later := [falteringCall, .upkeep .sweep, falteringCall]
    ((session.successes later).filter fun call => call.1 = "faltering").Nodup ∧
      session.successes later = [("faltering", [])] ∧ (session.performAll later).world = 2 := by
  intro session later
  have hlater : ∀ operation ∈ later, ¬ operation.Removes "faltering" := by
    simp [later, falteringCall, Operation.Removes, FunctionCache.Upkeep.Removes]
  have hkept := (results_kept ⟨true, 300, []⟩ 0 [falteringCall, .upkeep .clear]).2.2.2 "faltering"
    rfl (by decide) later hlater
  exact ⟨hkept.1, rfl, rfl⟩

end Session
end Rulebook
