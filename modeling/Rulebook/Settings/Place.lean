import Rulebook.Settings.Loose

/-!
# Places in settings

A place is written as a key with further keys behind points and with places of lists in brackets,
as in `function_cache.functions.f` or `log[0]`. Settings are laid over each other place by place.
-/
namespace Rulebook

inductive Step where
  | key (name : String)
  /-- A negative number counts from the end. -/
  | item (number : Int)
deriving DecidableEq

namespace Step

def isKeyChar (c : Char) : Bool := c.isAlphanum || c = '_' || c = '-'

def key? (cs : List Char) : Option (Step × List Char) :=
  match cs.takeWhile isKeyChar with
  | [] => none
  | name => some (key (String.ofList name), cs.dropWhile isKeyChar)

def isSpace (c : Char) : Bool := c = ' ' || c = '\t'

/-- The number after an opening bracket, with blanks around it, and the closing bracket. -/
def item? (cs : List Char) : Option (Step × List Char) := do
  let (negative, digits) := match cs.dropWhile isSpace with
    | '-' :: rest => (true, rest)
    | cs => (false, cs)
  let n ← Loose.natural? (digits.takeWhile Char.isDigit)
  let number : Int := if negative then -(n : Int) else n
  match (digits.dropWhile Char.isDigit).dropWhile isSpace with
  | ']' :: rest => if fitsSigned number then some (item number, rest) else none
  | _ => none

/-- The steps behind the first one. Each takes at least two characters. -/
def more? : Nat → List Char → Option (List Step)
  | _, [] => some []
  | fuel + 1, '.' :: rest => do
    let (step, rest) ← key? rest
    pure (step :: (← more? fuel rest))
  | fuel + 1, '[' :: rest => do
    let (step, rest) ← item? rest
    pure (step :: (← more? fuel rest))
  | _, _ => none

/-- The place that a text writes. A text that writes none is a key itself. -/
def ofText (text : String) : List Step :=
  let place := do
    let (step, rest) ← key? text.toList
    pure (step :: (← more? rest.length rest))
  place.getD [key text]

end Step

namespace Loose

mutual

/-- A value in the place of another one; tables keep the keys that the new value lacks. -/
def replacing : Loose → Loose → Loose
  | table entries, old => .table (merged entries (old.entries?.getD []))
  | v, _ => v

def merged : List (String × Loose) → Table Loose → Table Loose
  | [], held => held
  | (key, v) :: rest, held =>
    merged rest (Table.put held key (replacing v ((Table.get? held key).getD .nil)))

end

/-- The items with room for a number, filled up by nothing, and the place that the number means. -/
def roomFor (items : List Loose) (number : Int) : List Loose × Nat :=
  if 0 ≤ number then (items ++ List.replicate (number.toNat + 1 - items.length) .nil, number.toNat)
  else
    let back := number.natAbs
    (List.replicate (back - items.length) .nil ++ items, items.length - back)

/-- Sets the value at a place. What stands in the way gives way to a table or a list. -/
def setAt (value : Loose) : List Step → Loose → Loose
  | [], old => value.replacing old
  | .key name :: rest, old =>
    let entries := old.entries?.getD []
    .table (Table.put entries name (setAt value rest ((Table.get? entries name).getD .nil)))
  | .item number :: rest, old =>
    let (items, i) := roomFor (old.items?.getD []) number
    .list (items.modify i (setAt value rest))

end Loose
end Rulebook
