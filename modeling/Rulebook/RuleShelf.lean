import Rulebook.RulesetCache

/-!
# Shelves of rules

A shelf holds the rules of each URI in memory. It serves as a source that never fails.
-/
namespace Rulebook

structure RuleShelf where
  rulesets : Table (List Rule)

namespace RuleShelf

def empty : RuleShelf := ⟨[]⟩

/-- How many URIs have rules, be it none. -/
def size (shelf : RuleShelf) : Nat := shelf.rulesets.length

def get? (shelf : RuleShelf) (uri : String) : Option (List Rule) := Table.get? shelf.rulesets uri

/-- The rules take the place of those that the URI has. -/
def put (shelf : RuleShelf) (uri : String) (rules : List Rule) : RuleShelf :=
  ⟨Table.put shelf.rulesets uri rules⟩

def remove (shelf : RuleShelf) (uri : String) : RuleShelf := ⟨Table.remove shelf.rulesets uri⟩

def source (shelf : RuleShelf) : RuleSource := fun uri => .ok (shelf.get? uri)

theorem get?_put_self (shelf : RuleShelf) (uri : String) (rules : List Rule) :
    (shelf.put uri rules).get? uri = some rules :=
  Table.get?_put_self ..

theorem get?_put_of_ne (shelf : RuleShelf) {uri other : String} (rules : List Rule)
    (h : uri ≠ other) : (shelf.put uri rules).get? other = shelf.get? other :=
  Table.get?_put_of_ne _ _ h

theorem get?_remove_self (shelf : RuleShelf) (uri : String) :
    (shelf.remove uri).get? uri = none :=
  Table.get?_remove_self ..

theorem get?_remove_of_ne (shelf : RuleShelf) {uri other : String} (h : uri ≠ other) :
    (shelf.remove uri).get? other = shelf.get? other :=
  Table.get?_remove_of_ne _ h

end RuleShelf
end Rulebook
