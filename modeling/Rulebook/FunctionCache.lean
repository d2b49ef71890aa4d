import Rulebook.Arguments
import Rulebook.Failure

/-!
# Function results that are kept

A function may have its results kept, each for a lifetime in seconds. The cache reads the time from
a clock. By a clock that stands still, a lifetime of zero has ended at once and no other one ever
ends. Every 256th result that is stored sweeps out those whose lifetime has ended.
-/
namespace Rulebook

/-- A function that rules may call. It may count its calls, or change other state of its own. -/
structure Function (σ : Type) where
  returns : Kind
  call : Arguments → σ → Except Failure Json × σ

structure FunctionPolicy where
  keep : Option Bool
  lifetime : Option Nat
deriving DecidableEq

structure CachePolicy where
  keep : Bool
  lifetime : Nat
  functions : Table FunctionPolicy

namespace CachePolicy

def standard : CachePolicy := ⟨false, 300, []⟩

def keeps (policy : CachePolicy) (function : String) : Bool :=
  ((Table.get? policy.functions function).bind FunctionPolicy.keep).getD policy.keep

def lifetimeOf (policy : CachePolicy) (function : String) : Nat :=
  ((Table.get? policy.functions function).bind FunctionPolicy.lifetime).getD policy.lifetime

end CachePolicy

/-- What a clock shows each time it is read, in nanoseconds, and how often it has been read. -/
structure Clock where
  shows : Nat → Nat
  readings : Nat

namespace Clock

def still : Clock := ⟨fun _ => 0, 0⟩

def now (clock : Clock) : Nat := clock.shows clock.readings

def tick (clock : Clock) : Clock := { clock with readings := clock.readings + 1 }

/-- How many nanoseconds make a second. -/
def second : Nat := 1000000000

end Clock

structure FunctionCache.Entry where
  function : String
  key : String
  value : Json
  lifetime : Nat
  /-- What the clock showed when the result was stored. -/
  since : Nat

structure FunctionCache where
  policy : CachePolicy
  entries : List FunctionCache.Entry
  /-- How many results have been stored since the beginning. -/
  stored : Nat
  clock : Clock

namespace FunctionCache

def Entry.isFor (entry : Entry) (function key : String) : Bool :=
  entry.function = function && entry.key = key

def Entry.hasEnded (entry : Entry) (now : Nat) : Bool :=
  entry.lifetime * Clock.second ≤ now - entry.since

def empty (policy : CachePolicy) : FunctionCache := ⟨policy, [], 0, .still⟩

def size (cache : FunctionCache) : Nat := cache.entries.length

def find? (cache : FunctionCache) (function key : String) : Option Entry :=
  cache.entries.find? fun entry => entry.isFor function key

def drop (cache : FunctionCache) (function key : String) : FunctionCache :=
  { cache with entries := cache.entries.filter fun entry => !entry.isFor function key }

/-- The cache after its clock has been read. -/
def tick (cache : FunctionCache) : FunctionCache := { cache with clock := cache.clock.tick }

/-- Removes the results whose lifetime has ended. -/
def sweep (cache : FunctionCache) : FunctionCache :=
  { cache.tick with entries := cache.entries.filter fun entry => !entry.hasEnded cache.clock.now }

def evict (cache : FunctionCache) (function : String) : FunctionCache :=
  { cache with entries := cache.entries.filter fun entry => entry.function ≠ function }

def clear (cache : FunctionCache) : FunctionCache := { cache with entries := [] }

def sweepInterval : Nat := 256

def store (cache : FunctionCache) (function key : String) (value : Json) : FunctionCache :=
  let entry := ⟨function, key, value, cache.policy.lifetimeOf function, cache.clock.now⟩
  let filled :=
    { cache.tick with
      entries := entry :: (cache.drop function key).entries
      stored := cache.stored + 1 }
  if filled.stored % sweepInterval = 0 then filled.sweep else filled

/-- The result that is kept and has not ended. -/
def fresh? (cache : FunctionCache) (function key : String) : Option Json :=
  match cache.find? function key with
  | some entry => if entry.hasEnded cache.clock.now then none else some entry.value
  | none => none

end FunctionCache

/-- What evaluations change: the results that are kept, and the state of the functions. -/
structure Session (σ : Type) where
  cache : FunctionCache
  world : σ

namespace Session

variable {σ : Type}

def callDirectly (function : Function σ) (arguments : Arguments) (session : Session σ) :
    Except Failure Json × Session σ :=
  let (result, world) := function.call arguments session.world
  (result, { session with world })

/-- A result is stored only if the call succeeds. An entry that has ended goes in any case. The
cache is that of the session in which the call is evaluated. For rules that an engine has compiled
itself it is also the one that the compiled calls hold; rules that come along with a request may
have been compiled with another. -/
def call (name : String) (function : Function σ) (arguments : Arguments) (session : Session σ) :
    Except Failure Json × Session σ :=
  if !session.cache.policy.keeps name then session.callDirectly function arguments
  else
    match session.cache.fresh? name arguments.key with
    | some value => (.ok value, { session with cache := session.cache.tick })
    | none =>
      let cleared := { session with cache := (session.cache.drop name arguments.key).tick }
      match cleared.callDirectly function arguments with
      | (.ok value, after) =>
        (.ok value, { after with cache := after.cache.store name arguments.key value })
      | (.error failure, after) => (.error failure, after)

end Session
end Rulebook
