import Rulebook.FunctionCache
import Rulebook.Json.Fields

/-!
# Settings

How an engine runs and what it keeps. Settings are read from JSON values; what is absent has its
standard value.
-/
namespace Rulebook

structure LogSettings where
  level : String
  json : Bool
deriving DecidableEq

structure Settings where
  sequential : Bool
  crossProduct : Bool
  refreshSeconds : Nat
  strict : Bool
  checksDates : Bool
  functionCache : CachePolicy
  log : LogSettings

namespace Settings

open Json

def standard : Settings where
  sequential := false
  crossProduct := false
  refreshSeconds := 300
  strict := true
  checksDates := false
  functionCache := .standard
  log := ⟨"info", false⟩

end Settings

open Json

/-- As an array a policy must have both of its fields. -/
def FunctionPolicy.read? (v : Json) : Option FunctionPolicy := do
  let fields ← Fields.of? ["cacheable", "expiration_seconds"] v
  if fields.positional ∧ (fields.get 1).isNone then none
  else
    let keep ← fields.optional? 0 Json.bool?
    let lifetime ← fields.optional? 1 Json.unsigned?
    pure { keep, lifetime }

def CachePolicy.read? (v : Json) : Option CachePolicy := do
  let fields ← Fields.of? ["default_cacheable", "default_expiration_seconds", "functions"] v
  let keep ← fields.default? 0 CachePolicy.standard.keep Json.bool?
  let lifetime ← fields.default? 1 CachePolicy.standard.lifetime Json.unsigned?
  let functions ← fields.default? 2 [] fun functions => do
    let members ← functions.object?
    let policies ← members.mapM fun (name, policy) => do pure (name, ← FunctionPolicy.read? policy)
    pure (Table.ofEntries policies)
  pure { keep, lifetime, functions }

def LogSettings.read? (v : Json) : Option LogSettings := do
  let fields ← Fields.of? ["log_level", "json_logs"] v
  let level ← fields.default? 0 "info" Json.string?
  let json ← fields.default? 1 false Json.bool?
  pure { level, json }

namespace Settings

def fieldNames : List String :=
  ["sequential_mode", "cross_product_mode", "ruleset_cache_refresh_seconds",
    "abort_on_compile_error", "enforce_validity_window", "function_cache", "log"]

def read? (v : Json) : Option Settings := do
  let fields ← Fields.of? fieldNames v
  let sequential ← fields.default? 0 standard.sequential Json.bool?
  let crossProduct ← fields.default? 1 standard.crossProduct Json.bool?
  let refreshSeconds ← fields.default? 2 standard.refreshSeconds Json.unsigned?
  let strict ← fields.default? 3 standard.strict Json.bool?
  let checksDates ← fields.default? 4 standard.checksDates Json.bool?
  let functionCache ← fields.default? 5 standard.functionCache CachePolicy.read?
  let log ← fields.default? 6 standard.log LogSettings.read?
  pure { sequential, crossProduct, refreshSeconds, strict, checksDates, functionCache, log }

end Settings
end Rulebook
