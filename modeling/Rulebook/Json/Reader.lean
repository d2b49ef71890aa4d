import Rulebook.Json.Draft
import Rulebook.Json.Token

/-!
# Reading JSON text

A reader holds the containers that are open and what may come next. It takes one token after the
other, so a text is read in one pass.
-/
namespace Rulebook.Json

/-- An open container that waits for a value; what it holds already stands last first. -/
inductive Frame where
  | item (before : List Draft)
  | member (before : List (Option String × Draft)) (name : Option String)

inductive Reading where
  /-- A value must come. -/
  | value (stack : List Frame)
  /-- An array has been opened: an item or its end. -/
  | firstItem (stack : List Frame)
  /-- An item is complete: a comma or the end. -/
  | nextItem (before : List Draft) (stack : List Frame)
  /-- An object has been opened: a name or its end. -/
  | firstMember (stack : List Frame)
  /-- A comma stands in an object: a name must come. -/
  | nextName (before : List (Option String × Draft)) (stack : List Frame)
  | colon (before : List (Option String × Draft)) (name : Option String) (stack : List Frame)
  | nextMember (before : List (Option String × Draft)) (stack : List Frame)
  | done (value : Draft)

namespace Reading

/-- A value is complete: it goes into the innermost container. -/
def complete (v : Draft) : List Frame → Reading
  | [] => .done v
  | .item before :: stack => .nextItem (v :: before) stack
  | .member before name :: stack => .nextMember ((name, v) :: before) stack

/-- A token where a value may stand. -/
def start (stack : List Frame) : Json.Token → Option Reading
  | .null => some (complete .null stack)
  | .bool b => some (complete (.bool b) stack)
  | .number n => some (complete (.number n) stack)
  | .string s => some (complete (.string s) stack)
  | .openArray => some (.firstItem stack)
  | .openObject => some (.firstMember stack)
  | _ => none

def step : Reading → Json.Token → Option Reading
  | .value stack, token => start stack token
  | .firstItem stack, .closeArray => some (complete (.array []) stack)
  | .firstItem stack, token => start (.item [] :: stack) token
  | .nextItem before stack, .comma => some (.value (.item before :: stack))
  | .nextItem before stack, .closeArray => some (complete (.array before.reverse) stack)
  | .firstMember stack, .closeObject => some (complete (.object []) stack)
  | .firstMember stack, .string s => some (.colon [] s stack)
  | .nextName before stack, .string s => some (.colon before s stack)
  | .colon before name stack, .colon => some (.value (.member before name :: stack))
  | .nextMember before stack, .comma => some (.nextName before stack)
  | .nextMember before stack, .closeObject => some (complete (.object before.reverse) stack)
  | _, _ => none

def draft? : Reading → Option Draft
  | .done v => some v
  | _ => none

end Reading

def Draft.ofText? (text : String) : Option Draft := do
  let tokens ← Token.scan text.toList
  let reading ← tokens.foldlM Reading.step (.value [])
  reading.draft?

/-- How many arrays and objects that are needed may be inside each other. -/
def depthLimit : Nat := 127

/-- What a text writes, as far as it is needed. -/
def readNeeded? (need : Need) (text : String) : Option Json := do
  let draft ← Draft.ofText? text
  draft.value? need depthLimit

/-- The value that a text writes, its members as they stand there. -/
def read? (text : String) : Option Json := readNeeded? .whole text

end Rulebook.Json
