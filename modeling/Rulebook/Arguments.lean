import Rulebook.Json.Text

/-!
# Arguments

Functions and actions take values under names. The text of all of them, in the order of the names,
identifies a call.
-/
namespace Rulebook

abbrev Arguments := Table Json

namespace Arguments

def key (arguments : Arguments) : String := (Json.object arguments).text

def text? (arguments : Arguments) (name : String) : Option String :=
  (Table.get? arguments name).bind Json.string?

def signed? (arguments : Arguments) (name : String) : Option Int :=
  (Table.get? arguments name).bind Json.signed?

def double? (arguments : Arguments) (name : String) : Option Double :=
  ((Table.get? arguments name).bind Json.number?).map Number.toDouble

end Arguments
end Rulebook
