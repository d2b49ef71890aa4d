import Rulebook.Failure

/-!
# Field paths

A path names fields one after the other, separated by points. A field marked `[*]` is a list whose
items are all followed; the results of such a path are collected in one list. Null ends a path.
-/
namespace Rulebook

structure Segment where
  field : String
  each : Bool
deriving DecidableEq

abbrev Path := List Segment

namespace Path

def mark : List Char := ['[', '*', ']']

/-- The pieces between the points; one more than there are points. -/
def pieces : List Char → List (List Char)
  | [] => [[]]
  | c :: rest =>
    match pieces rest with
    | [] => [[c]]
    | piece :: others => if c = '.' then [] :: piece :: others else (c :: piece) :: others

/-- The name before a mark at the end, if a mark stands there. -/
def unmarked? (piece : List Char) : Option (List Char) :=
  if mark.isSuffixOf piece then some (piece.take (piece.length - mark.length)) else none

def segment (position : Nat) (piece : List Char) : Except PathFault Segment :=
  let (name, each) := match unmarked? piece with
    | some name => (name, true)
    | none => (piece, false)
  if name = [] then .error (.emptySegment position)
  else if name.contains '[' ∨ name.contains ']' then .error (.strayMark (String.ofList piece))
  else .ok ⟨String.ofList name, each⟩

def segmentsFrom (position : Nat) : List (List Char) → Except PathFault Path
  | [] => .ok []
  | piece :: rest => do
    let first ← segment position piece
    let others ← segmentsFrom (position + 1) rest
    pure (first :: others)

/-- The empty text is the empty path. -/
def parse (text : String) : Except PathFault Path :=
  match text.toList with
  | [] => .ok []
  | cs => segmentsFrom 1 (pieces cs)

def segmentChars (segment : Segment) : List Char :=
  segment.field.toList ++ if segment.each then mark else []

def chars : Path → List Char
  | [] => []
  | [segment] => segmentChars segment
  | segment :: rest => segmentChars segment ++ '.' :: chars rest

def text (path : Path) : String := String.ofList (chars path)

def hasEach (path : Path) : Bool := path.any Segment.each

/-- A field name that counts items: digits, perhaps after a plus sign, of a number below
`2 ^ 64`. -/
def index? (field : String) : Option Nat :=
  let digits := match field.toList with
    | '+' :: rest => rest
    | cs => cs
  let n := Text.Scan.value digits
  if digits ≠ [] ∧ digits.all Char.isDigit ∧ fitsUnsigned n then some n else none

/-- The shape of one field. -/
def fieldShape (shape : Shape) (field : String) : Except PathFault Shape :=
  match shape with
  | .any => .ok .any
  | .record fields =>
    match Table.get? fields field with
    | some found => .ok found
    | none => .error (.undeclared field)
  | .list element => if (index? field).isSome then .ok element else .error (.noFields shape field)
  | _ => .error (.noFields shape field)

/-- The shape at the end of a path. Below a place that may hold anything nothing is checked. -/
def check : Path → Shape → Except PathFault Shape
  | [], shape => .ok shape
  | segment :: rest, shape =>
    if shape.isAny then .ok .any
    else do
      let next ← fieldShape shape segment.field
      if !segment.each then check rest next
      else match next with
        | .any => pure (.list .any)
        | .list element => do
          let inner ← check rest element
          match inner with
          | .list innermost => pure (.list (if hasEach rest then innermost else inner))
          | _ => pure (.list inner)
        | _ => throw (.notCollection segment.field next)

/-- The field of an object, or the item of an array. What is not there is null. -/
def readField (value : Json) (field : String) : Json :=
  match value with
  | .object members => (Table.get? members field).getD .null
  | .array items => ((index? field).bind fun i => items[i]?).getD .null
  | _ => .null

/-- Results of the items, those that are lists themselves spliced in if the path goes on to collect
lists. -/
def collect (nested : Bool) : List Json → List Json
  | [] => []
  | .array inner :: rest =>
    if nested then inner ++ collect nested rest else .array inner :: collect nested rest
  | value :: rest => value :: collect nested rest

def resolve : Path → Json → Except Failure Json
  | [], value => .ok value
  | segment :: rest, value =>
    if value.isNull then .ok .null
    else
      let next := readField value segment.field
      if !segment.each then resolve rest next
      else match next with
        | .null => .ok .null
        | .array items => do
          let results ← items.mapM (resolve rest)
          pure (.array (collect (hasEach rest) results))
        | other => .error (.mismatch (.arrayIn segment.field) other.typeName)

end Path
end Rulebook
