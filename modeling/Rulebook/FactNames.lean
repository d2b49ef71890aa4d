import Rulebook.Failure

/-!
# Fact names

The rules of a ruleset share one list of fact names. A name stands for one type only, and names
stay in the order in which they were first declared.
-/
namespace Rulebook

abbrev FactNames := List (String × String)

namespace FactNames

def typeOf? (names : FactNames) (name : String) : Option String :=
  (names.find? fun entry => entry.1 = name).map Prod.snd

def check (names : FactNames) (name typeName : String) : Except NameClash Unit :=
  match names.typeOf? name with
  | none => .ok ()
  | some held => if held = typeName then .ok () else .error ⟨name, held, typeName⟩

/-- The names with one more, unless it is there already. -/
def add (names : FactNames) (name typeName : String) : FactNames :=
  match names.typeOf? name with
  | none => names ++ [(name, typeName)]
  | some _ => names

def declare (names : FactNames) (name typeName : String) : Except NameClash FactNames :=
  (names.check name typeName).map fun _ => names.add name typeName

def namesFor (names : FactNames) (typeName : String) : List String :=
  (names.filter fun entry => entry.2 = typeName).map Prod.fst

def declaresType (names : FactNames) (typeName : String) : Bool :=
  names.any fun entry => entry.2 = typeName

theorem typeOf?_append (names more : FactNames) (name : String) :
    typeOf? (names ++ more) name = (names.typeOf? name).or (typeOf? more name) := by
  simp only [typeOf?, List.find?_append]
  cases names.find? fun entry => entry.1 = name <;> rfl

/-- A name keeps the type that it has. -/
theorem typeOf?_add_of_some {names : FactNames} {name held : String} (added typeName : String)
    (h : names.typeOf? name = some held) : (names.add added typeName).typeOf? name = some held := by
  unfold add
  split
  · rw [typeOf?_append, h]; rfl
  · exact h

theorem typeOf?_add_self (names : FactNames) (name typeName : String) :
    (names.add name typeName).typeOf? name = some ((names.typeOf? name).getD typeName) := by
  unfold add
  split
  · next h => rw [typeOf?_append, h]; simp [typeOf?]
  · next held h => simp [h]

theorem typeOf?_add_of_ne (names : FactNames) {name other : String} (typeName : String)
    (h : name ≠ other) : (names.add name typeName).typeOf? other = names.typeOf? other := by
  unfold add
  split
  · rw [typeOf?_append]; simp [typeOf?, h]
  · rfl

end FactNames
end Rulebook
