import Rulebook.Json

/-!
# Drafts of JSON values

A text can be well formed without all of it being values: a number may be beyond the range of
numbers, a string may hold half of a pair, and arrays and objects may nest too deep. Such a part
does no harm where nobody needs it. A draft holds what the text writes; the value is taken from it
for a given need.
-/
namespace Rulebook.Json

inductive Draft where
  | null
  | bool (value : Bool)
  | number (value : Option Number)
  | string (value : Option String)
  | array (items : List Draft)
  | object (members : List (Option String × Draft))
deriving Inhabited

/-- What of a value is needed. -/
inductive Need where
  | whole
  /-- The same of each item. -/
  | items (each : Need)
  /-- Of an object the members with these names, of an array the items in their places. -/
  | fields (named : List (String × Need))

namespace Need

/-- What is needed of the first item of an array and of the array behind it. -/
def first : Need → Need × Need
  | whole => (whole, whole)
  | items each => (each, items each)
  | fields [] => (whole, fields [])
  | fields ((_, need) :: rest) => (need, fields rest)

/-- What is needed of a member, if it is. -/
def member? : Need → String → Option Need
  | fields named, name => (named.find? fun field => field.1 = name).map (·.2)
  | _, _ => some whole

end Need

namespace Draft

mutual

/-- The value for a need, without what is not needed. So many arrays and objects may be inside each
other. -/
def value? : Draft → Need → Nat → Option Json
  | null, _, _ => some .null
  | bool b, _, _ => some (.bool b)
  | number n, _, _ => n.map .number
  | string s, _, _ => s.map .string
  | array items, need, room + 1 => (items? items need room).map .array
  | object members, need, room + 1 => (members? members need room).map .object
  | _, _, 0 => none

def items? : List Draft → Need → Nat → Option (List Json)
  | [], _, _ => some []
  | d :: rest, need, room => do
    let v ← value? d need.first.1 room
    let others ← items? rest need.first.2 room
    pure (v :: others)

/-- All names must be readable, needed or not. -/
def members? : List (Option String × Draft) → Need → Nat → Option (List (String × Json))
  | [], _, _ => some []
  | (none, _) :: _, _, _ => none
  | (some name, d) :: rest, need, room => do
    let others ← members? rest need room
    match need.member? name with
    | none => pure others
    | some inner => do
      let v ← value? d inner room
      pure ((name, v) :: others)

end

end Draft
end Rulebook.Json
