import Rulebook.Failure
import Rulebook.Settings.Toml

/-!
# Loading settings

Settings come from a file, and variables of the environment take their places in it. A variable
counts if its name starts with `RULE_ENGINE_`, in any case; the rest of the name is the place that
it sets, where two underscores stand for a point.
-/
namespace Rulebook.Settings

def variablePrefix : List Char := "rule_engine_".toList

/-- The sign of the kelvin is the one character beyond ASCII whose small form is an ASCII letter.
All other such characters make a name that writes no place. -/
def lowerChar (c : Char) : Char := if c.toNat = 0x212a then 'k' else c.toLower

def pointed : List Char → List Char
  | [] => []
  | '_' :: '_' :: rest => '.' :: pointed rest
  | c :: rest => c :: pointed rest

/-- The place that a variable sets, if it counts. -/
def variablePlace? (name : String) : Option (List Step) :=
  let cs := name.toList.map lowerChar
  if variablePrefix.isPrefixOf cs then
    some (Step.ofText (String.ofList (pointed (cs.drop variablePrefix.length))))
  else none

def withVariable (held : Loose) (name value : String) : Loose :=
  match variablePlace? name with
  | some place => Loose.setAt (.ofText value) place held
  | none => held

/-- A file that is not there counts as empty. Its keys are places like those of variables. -/
def load (file : Option String) (environment : List (String × String)) : Except Failure Settings :=
  match file.elim (some []) Toml.read? with
  | none => .error .settings
  | some entries =>
    let withEntry := fun held (key, v) => Loose.setAt v (Step.ofText key) held
    let filed := entries.foldl withEntry (.table [])
    let held := environment.foldl (fun held v => withVariable held v.1 v.2) filed
    match ofLoose? held with
    | some settings => .ok settings
    | none => .error .settings

end Rulebook.Settings
