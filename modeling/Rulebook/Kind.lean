import Rulebook.Instant
import Rulebook.Json

/-!
# Kinds

The kinds that rules declare for attributes, constants and function results. Null fits every kind,
and a whole number fits a float.
-/
namespace Rulebook

inductive Kind where
  | boolean
  | integer
  | float
  | string
  | datetime
  | list
  | object
  | any
deriving DecidableEq, Inhabited

namespace Kind

def all : List Kind := [boolean, integer, float, string, datetime, list, object, any]

/-- The kind that a value has by its form. -/
def of : Json → Kind
  | .null => any
  | .bool _ => boolean
  | .number n => if n.isWhole then integer else float
  | .string _ => string
  | .array _ => list
  | .object _ => object

def accepts : Kind → Json → Bool
  | _, .null => true
  | any, _ => true
  | boolean, .bool _ => true
  | integer, .number n => n.isWhole
  | float, .number _ => true
  | string, .string _ => true
  | datetime, .string s => (Instant.parse? s).isSome
  | list, .array _ => true
  | object, .object _ => true
  | _, _ => false

/-- What messages call a kind. -/
def label : Kind → String
  | boolean => "boolean"
  | integer => "integer"
  | float => "float"
  | string => "string"
  | datetime => "datetime"
  | list => "list"
  | object => "object"
  | any => "any"

/-- What rule files call a kind. -/
def fileName : Kind → String
  | datetime => "date_time"
  | kind => kind.label

def ofFileName? (name : String) : Option Kind :=
  all.find? fun kind => kind.fileName = name

theorem accepts_of (v : Json) : (of v).accepts v = true := by
  cases v with
  | number n => cases n <;> rfl
  | _ => rfl

end Kind
end Rulebook
