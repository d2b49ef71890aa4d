import Rulebook.Kind

/-!
# Shapes

A shape says statically what values a place may hold: a scalar, a list of one shape, a record with
named fields, or anything. Paths and operands are checked against shapes when a rule is compiled.
-/
namespace Rulebook

inductive Shape where
  | boolean
  | integer
  | float
  | string
  | datetime
  | list (element : Shape)
  | record (fields : List (String × Shape))
  | any
deriving Inhabited

namespace Shape

mutual

def equal : Shape → Shape → Bool
  | .boolean, .boolean => true
  | .integer, .integer => true
  | .float, .float => true
  | .string, .string => true
  | .datetime, .datetime => true
  | .list a, .list b => equal a b
  | .record fs, .record gs => equalFields fs gs
  | .any, .any => true
  | _, _ => false

def equalFields : List (String × Shape) → List (String × Shape) → Bool
  | [], [] => true
  | (a, s) :: fs, (b, t) :: gs => decide (a = b) && equal s t && equalFields fs gs
  | _, _ => false

end

mutual

theorem eq_of_equal : ∀ {s t : Shape}, equal s t = true → s = t
  | .list a, .list b, h => congrArg _ (eq_of_equal h)
  | .record fs, .record gs, h => congrArg _ (eq_of_equalFields h)
  | .boolean, t, h | .integer, t, h | .float, t, h | .string, t, h | .datetime, t, h | .any, t, h =>
    by cases t <;> simp_all [equal]
  | .list _, .boolean, h | .list _, .integer, h | .list _, .float, h | .list _, .string, h
  | .list _, .datetime, h | .list _, .record _, h | .list _, .any, h => by simp [equal] at h
  | .record _, .boolean, h | .record _, .integer, h | .record _, .float, h | .record _, .string, h
  | .record _, .datetime, h | .record _, .list _, h | .record _, .any, h => by simp [equal] at h

theorem eq_of_equalFields : ∀ {fs gs : List (String × Shape)}, equalFields fs gs = true → fs = gs
  | [], [], _ => rfl
  | [], _ :: _, h => by simp [equalFields] at h
  | _ :: _, [], h => by simp [equalFields] at h
  | (a, s) :: fs, (b, t) :: gs, h => by
    simp only [equalFields, Bool.and_eq_true, decide_eq_true_eq] at h
    rw [h.1.1, eq_of_equal h.1.2, eq_of_equalFields h.2]

end

mutual

theorem equal_refl : ∀ s : Shape, equal s s = true
  | .list a => equal_refl a
  | .record fs => equalFields_refl fs
  | .boolean | .integer | .float | .string | .datetime | .any => rfl

theorem equalFields_refl : ∀ fs : List (String × Shape), equalFields fs fs = true
  | [] => rfl
  | (_, s) :: fs => by simp [equalFields, equal_refl s, equalFields_refl fs]

end

instance : DecidableEq Shape := fun s t =>
  if h : equal s t = true then isTrue (eq_of_equal h)
  else isFalse fun e => h (e ▸ equal_refl s)

def ofKind : Kind → Shape
  | .boolean => boolean
  | .integer => integer
  | .float => float
  | .string => string
  | .datetime => datetime
  | .list => list any
  | .object | .any => any

def isAny : Shape → Bool
  | any => true
  | _ => false

def isNumeric : Shape → Bool
  | integer | float => true
  | _ => false

/-- A place that may hold a truth value. -/
def isBooleanLike : Shape → Bool
  | boolean | any => true
  | _ => false

/-- A place that may hold a text; instants are written as texts. -/
def isTextLike : Shape → Bool
  | string | datetime | any => true
  | _ => false

def isCollectionLike : Shape → Bool
  | list _ | any => true
  | _ => false

/-- Whether values of the two shapes may have an order. -/
def isOrderedWith : Shape → Shape → Bool
  | any, _ => true
  | _, any => true
  | boolean, boolean => true
  | string, string | string, datetime | datetime, string | datetime, datetime => true
  | a, b => a.isNumeric && b.isNumeric

/-- Whether values of the two shapes may be equal. -/
def isEquatableWith : Shape → Shape → Bool
  | list _, list _ => true
  | record _, record _ => true
  | a, b => a.isOrderedWith b

/-- What messages call a shape. -/
def label : Shape → String
  | boolean => "boolean"
  | integer => "integer"
  | float => "float"
  | string => "string"
  | datetime => "datetime"
  | list element => "list<" ++ element.label ++ ">"
  | record _ => "record"
  | any => "any"

mutual

/-- What a value must be to fit a shape. Null fits all of them, and so a field that a value lacks
fits its record. -/
def Holds : Shape → Json → Prop
  | _, .null => True
  | .any, _ => True
  | .boolean, v => ∃ b, v = .bool b
  | .integer, v => ∃ n : Number, v = .number n ∧ n.isWhole = true
  | .float, v => ∃ n, v = .number n
  | .string, v => ∃ s, v = .string s
  | .datetime, v => ∃ s, v = .string s ∧ (Instant.parse? s).isSome = true
  | .list element, v => ∃ items, v = .array items ∧ ∀ item ∈ items, Holds element item
  | .record fields, v => ∃ members, v = .object members ∧ HoldsFields fields members

def HoldsFields : List (String × Shape) → Table Json → Prop
  | [], _ => True
  | (name, shape) :: rest, members =>
    (∀ v, Table.get? members name = some v → Holds shape v) ∧ HoldsFields rest members

end

end Shape

/-- The shapes of the fact types that are known; the others may hold anything. -/
abbrev Schemas := Table Shape

namespace Schemas

def resolve (schemas : Schemas) (typeName : String) : Shape :=
  (Table.get? schemas typeName).getD .any

end Schemas
end Rulebook
