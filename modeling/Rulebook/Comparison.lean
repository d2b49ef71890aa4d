import Rulebook.Failure

/-!
# Comparing values

Equality looks through the forms of numbers, and through arrays item by item; all else must have
the same form. Order is defined on numbers, truth values and texts. Two texts that both denote
instants are ordered as instants.
-/
namespace Rulebook

namespace Json

mutual

def equal : Json → Json → Bool
  | .number a, .number b => a.compare b = .eq
  | .array xs, .array ys => equalItems xs ys
  | x, y => x.same y

def equalItems : List Json → List Json → Bool
  | [], [] => true
  | x :: xs, y :: ys => equal x y && equalItems xs ys
  | _, _ => false

end

def compareTexts (a b : String) : Ordering :=
  match Instant.parse? a, Instant.parse? b with
  | some x, some y => x.compare y
  | _, _ => Ord.compare a b

def compare : Json → Json → Except Failure Ordering
  | .number a, .number b => .ok (a.compare b)
  | .string a, .string b => .ok (compareTexts a b)
  | .bool a, .bool b => .ok (Ord.compare a b)
  | a, b => .error (.mismatch (.comparableWith a.typeName) b.typeName)

def containsAll (items needles : List Json) : Bool :=
  needles.all fun needle => items.any fun item => item.equal needle

def containsAny (items needles : List Json) : Bool :=
  needles.any fun needle => items.any fun item => item.equal needle

/-- A scalar counts as the list of itself. -/
def asItems : Json → List Json
  | .array items => items
  | value => [value]

end Json

inductive Relation where
  | equal
  | less
  | lessOrEqual
  | greater
  | greaterOrEqual
deriving DecidableEq

namespace Relation

def allows : Relation → Ordering → Bool
  | equal, order => order = .eq
  | less, order => order = .lt
  | lessOrEqual, order => order ≠ .gt
  | greater, order => order = .gt
  | greaterOrEqual, order => order ≠ .lt

/-- Whether the relation holds between two values that are not null. -/
def holds (relation : Relation) (left right : Json) : Except Failure Bool :=
  match relation with
  | equal => .ok (left.equal right)
  | _ => (left.compare right).map relation.allows

end Relation

/-- A truth value, or none. -/
inductive Truth where
  | yes
  | no
  | unknown
deriving DecidableEq

namespace Truth

def ofBool (b : Bool) : Truth := if b then yes else no

def ofJson : Json → Except Failure Truth
  | .bool b => .ok (ofBool b)
  | .null => .ok unknown
  | v => .error (.mismatch .truth v.typeName)

def toJson : Truth → Json
  | yes => .bool true
  | no => .bool false
  | unknown => .null

theorem ofJson_toJson (t : Truth) : ofJson t.toJson = .ok t := by
  cases t <;> rfl

end Truth
end Rulebook
