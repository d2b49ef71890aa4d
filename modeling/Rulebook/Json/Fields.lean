import Rulebook.Json

/-!
# Reading records

A record is written as an object, whose other members do not count, or as an array of its fields in
their order. A field that an object names twice makes the whole unreadable.
-/
namespace Rulebook.Json

/-- The fields of a record, and whether it was written as an array. -/
structure Fields where
  positional : Bool
  values : List (Option Json)

namespace Fields

/-- The value of a member that stands at most once. -/
def member? (members : List (String × Json)) (name : String) : Option (Option Json) :=
  match members.filter fun entry => entry.1 = name with
  | [] => some none
  | [(_, value)] => some (some value)
  | _ => none

def ofMembers? (names : List String) (members : List (String × Json)) : Option Fields :=
  (names.mapM (member? members)).map (⟨false, ·⟩)

/-- An array may be too short for the fields but not too long. -/
def ofItems? (names : List String) (items : List Json) : Option Fields :=
  if items.length ≤ names.length then
    some ⟨true, items.map some ++ List.replicate (names.length - items.length) none⟩
  else none

def of? (names : List String) : Json → Option Fields
  | .object members => ofMembers? names members
  | .array items => ofItems? names items
  | _ => none

def get (fields : Fields) (i : Nat) : Option Json := (fields.values[i]?).getD none

variable {α : Type}

def required? (fields : Fields) (i : Nat) (read : Json → Option α) : Option α :=
  (fields.get i).bind read

/-- A field that may be absent, but is no null when it is there. -/
def default? (fields : Fields) (i : Nat) (standard : α) (read : Json → Option α) : Option α :=
  match fields.get i with
  | none => some standard
  | some value => read value

/-- Null or absent for nothing. -/
def optional? (fields : Fields) (i : Nat) (read : Json → Option α) : Option (Option α) :=
  match fields.get i with
  | none => some none
  | some .null => some none
  | some value => (read value).map some

end Fields

variable {α : Type}

def list? (read : Json → Option α) (value : Json) : Option (List α) :=
  value.array?.bind fun items => items.mapM read

mutual

/-- How deep arrays and objects nest. -/
def depth : Json → Nat
  | .array items => itemsDepth items + 1
  | .object members => membersDepth members + 1
  | _ => 0

def itemsDepth : List Json → Nat
  | [] => 0
  | v :: rest => max (depth v) (itemsDepth rest)

def membersDepth : List (String × Json) → Nat
  | [] => 0
  | (_, v) :: rest => max (depth v) (membersDepth rest)

end

end Rulebook.Json
