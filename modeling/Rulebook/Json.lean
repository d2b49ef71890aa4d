import Rulebook.Number
import Rulebook.Table

/-!
# JSON values

Facts, constants, arguments and results are JSON values. A value that has been read may name a
member twice; its ordered form keeps the last of them and lists the members by name.
-/
namespace Rulebook

inductive Json where
  | null
  | bool (value : Bool)
  | number (value : Number)
  | string (value : String)
  | array (items : List Json)
  | object (members : List (String × Json))
deriving Inhabited

namespace Json

def ofNat (n : Nat) : Json := .number (.ofNat n)

def isNull : Json → Bool
  | .null => true
  | _ => false

def bool? : Json → Option Bool
  | .bool b => some b
  | _ => none

def string? : Json → Option String
  | .string s => some s
  | _ => none

def array? : Json → Option (List Json)
  | .array items => some items
  | _ => none

def object? : Json → Option (Table Json)
  | .object members => some members
  | _ => none

def number? : Json → Option Number
  | .number n => some n
  | _ => none

def signed? (v : Json) : Option Int := v.number?.bind Number.signed?

def unsigned? (v : Json) : Option Nat := v.number?.bind Number.unsigned?

def member? (v : Json) (name : String) : Option Json :=
  v.object?.bind fun members => Table.get? members name

/-- What a value is called in messages. -/
def typeName : Json → String
  | .null => "null"
  | .bool _ => "boolean"
  | .number _ => "number"
  | .string _ => "string"
  | .array _ => "array"
  | .object _ => "object"

mutual

/-- Equal form throughout: no number equals one of the other form. -/
def same : Json → Json → Bool
  | .null, .null => true
  | .bool a, .bool b => a = b
  | .number a, .number b => a.same b
  | .string a, .string b => a = b
  | .array xs, .array ys => sameItems xs ys
  | .object xs, .object ys => sameMembers xs ys
  | _, _ => false

def sameItems : List Json → List Json → Bool
  | [], [] => true
  | x :: xs, y :: ys => same x y && sameItems xs ys
  | _, _ => false

def sameMembers : List (String × Json) → List (String × Json) → Bool
  | [], [] => true
  | (a, x) :: xs, (b, y) :: ys => a = b && same x y && sameMembers xs ys
  | _, _ => false

end

mutual

/-- Members by name, the last of those with one name. -/
def ordered : Json → Json
  | .array items => .array (orderedItems items)
  | .object members => .object (Table.ofEntries (orderedMembers members))
  | v => v

def orderedItems : List Json → List Json
  | [] => []
  | v :: rest => ordered v :: orderedItems rest

def orderedMembers : List (String × Json) → List (String × Json)
  | [] => []
  | (name, v) :: rest => (name, ordered v) :: orderedMembers rest

end

mutual

/-- Every object in the value lists its members by name, each name once. -/
def Ordered : Json → Prop
  | .array items => OrderedItems items
  | .object members => Table.Ordered members ∧ OrderedMembers members
  | _ => True

def OrderedItems : List Json → Prop
  | [] => True
  | v :: rest => Ordered v ∧ OrderedItems rest

def OrderedMembers : List (String × Json) → Prop
  | [] => True
  | (_, v) :: rest => Ordered v ∧ OrderedMembers rest

end

theorem orderedMembers_iff {members : List (String × Json)} :
    OrderedMembers members ↔ ∀ entry ∈ members, Ordered entry.2 := by
  induction members with
  | nil => simp [OrderedMembers]
  | cons first rest ih => simp [OrderedMembers, ih]

mutual

/-- The ordered form is ordered, whatever was read. -/
theorem ordered_ordered : ∀ v : Json, Ordered (ordered v)
  | .array items => orderedItems_ordered items
  | .object members => by
    have h := orderedMembers_iff.mp (orderedMembers_ordered members)
    exact ⟨Table.ordered_ofEntries _,
      orderedMembers_iff.mpr fun entry he => h entry (Table.mem_of_mem_ofEntries he)⟩
  | .null | .bool _ | .number _ | .string _ => trivial

theorem orderedItems_ordered : ∀ items : List Json, OrderedItems (orderedItems items)
  | [] => trivial
  | v :: rest => ⟨ordered_ordered v, orderedItems_ordered rest⟩

theorem orderedMembers_ordered :
    ∀ members : List (String × Json), OrderedMembers (orderedMembers members)
  | [] => trivial
  | (_, v) :: rest => ⟨ordered_ordered v, orderedMembers_ordered rest⟩

end

mutual

/-- A value that is ordered stays as it is. -/
theorem Ordered.ordered_eq : ∀ {v : Json}, Ordered v → ordered v = v
  | .array items, h => by rw [ordered, OrderedItems.ordered_eq h]
  | .object members, h => by rw [ordered, OrderedMembers.ordered_eq h.2, h.1.ofEntries_eq]
  | .null, _ | .bool _, _ | .number _, _ | .string _, _ => rfl

theorem OrderedItems.ordered_eq : ∀ {items : List Json}, OrderedItems items →
    orderedItems items = items
  | [], _ => rfl
  | v :: rest, h => by rw [orderedItems, Ordered.ordered_eq h.1, OrderedItems.ordered_eq h.2]

theorem OrderedMembers.ordered_eq : ∀ {members : List (String × Json)}, OrderedMembers members →
    orderedMembers members = members
  | [], _ => rfl
  | (name, v) :: rest, h => by
    rw [orderedMembers, Ordered.ordered_eq h.1, OrderedMembers.ordered_eq h.2]

end

end Json
end Rulebook
