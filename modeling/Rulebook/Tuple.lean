import Rulebook.FactNames
import Rulebook.Rule

/-!
# Tuples

Rules are evaluated on tuples, which bind fact names to data. The facts of a run are grouped by
name; one name gives a tuple for each of its facts, several names give either the first facts
together or every combination.
-/
namespace Rulebook

abbrev Tuple := Table Json

structure FactGroup where
  name : String
  instances : List Json

namespace FactGroup

/-- The facts under each declared name; names without facts have no group. -/
def ofFacts (facts : List Fact) (names : FactNames) : List FactGroup :=
  (names.map fun entry =>
      ⟨entry.1, (facts.filter fun fact => fact.typeName = entry.2).map Fact.data⟩).filter
    fun group => !group.instances.isEmpty

def requireFilled (groups : List FactGroup) : Except Failure Unit :=
  match groups.find? fun group => group.instances.isEmpty with
  | some group => .error (.emptyGroup group.name)
  | none => .ok ()

end FactGroup

inductive TupleStrategy where
  | roundRobin
  | singleInstance
  | crossProduct
deriving DecidableEq

namespace TupleStrategy

def select (groups : Nat) (crossProduct : Bool) : TupleStrategy :=
  if groups = 1 then roundRobin
  else if 1 < groups ∧ crossProduct then .crossProduct
  else singleInstance

def label : TupleStrategy → String
  | roundRobin => "RoundRobin"
  | singleInstance => "SingleInstance"
  | crossProduct => "CrossProduct"

end TupleStrategy

/-- Binds the facts of one group one after the other, all in the same tuple. -/
structure RoundRobin where
  group : FactGroup
  position : Nat
  /-- The tuple as it was given last. -/
  buffer : Tuple

namespace RoundRobin

def make (group : FactGroup) : Except Failure RoundRobin := do
  FactGroup.requireFilled [group]
  pure ⟨group, 0, []⟩

def next? (state : RoundRobin) : Option (Tuple × RoundRobin) :=
  (state.group.instances[state.position]?).map fun data =>
    let buffer := Table.put state.buffer state.group.name data
    (buffer, { state with position := state.position + 1, buffer })

end RoundRobin

/-- Binds the first fact of every group, once. -/
structure SingleInstance where
  tuple : Option Tuple
  /-- How many further facts each group has, where there are any. -/
  ignored : List (String × Nat)

namespace SingleInstance

def firsts (groups : List FactGroup) : Tuple :=
  groups.foldl (fun tuple group => Table.put tuple group.name (group.instances.head?.getD .null)) []

def make (groups : List FactGroup) : Except Failure SingleInstance := do
  FactGroup.requireFilled groups
  let extra := groups.map fun group => (group.name, group.instances.length - 1)
  pure ⟨some (firsts groups), extra.filter fun entry => entry.2 ≠ 0⟩

def next? (state : SingleInstance) : Option (Tuple × SingleInstance) :=
  state.tuple.map fun tuple => (tuple, { state with tuple := none })

end SingleInstance

/-- Counts through all combinations, with one digit for each group; the first one turns fastest. -/
structure CrossProduct where
  groups : List FactGroup
  digits : List Nat
  exhausted : Bool

namespace CrossProduct

def make (groups : List FactGroup) : Except Failure CrossProduct := do
  FactGroup.requireFilled groups
  pure ⟨groups, groups.map fun _ => 0, false⟩

def total (groups : List FactGroup) : Nat :=
  groups.foldr (fun group n => group.instances.length * n) 1

def bind (tuple : Tuple) : List FactGroup → List Nat → Tuple
  | group :: groups, digit :: digits =>
    bind (Table.put tuple group.name ((group.instances[digit]?).getD .null)) groups digits
  | _, _ => tuple

/-- The next digits, and whether all of them have turned over. -/
def advance : List FactGroup → List Nat → List Nat × Bool
  | group :: groups, digit :: digits =>
    if digit + 1 < group.instances.length then ((digit + 1) :: digits, false)
    else
      let (rest, turned) := advance groups digits
      (0 :: rest, turned)
  | _, digits => (digits, true)

def next? (state : CrossProduct) : Option (Tuple × CrossProduct) :=
  if state.exhausted then none
  else
    let (digits, turned) := advance state.groups state.digits
    some (bind [] state.groups state.digits, ⟨state.groups, digits, turned⟩)

end CrossProduct

inductive TupleGenerator where
  | roundRobin (state : RoundRobin)
  | singleInstance (state : SingleInstance)
  | crossProduct (state : CrossProduct)

namespace TupleGenerator

def make (groups : List FactGroup) (crossProduct : Bool) : Except Failure TupleGenerator :=
  match TupleStrategy.select groups.length crossProduct, groups with
  | .roundRobin, [group] => (RoundRobin.make group).map roundRobin
  | .crossProduct, _ => (CrossProduct.make groups).map .crossProduct
  | _, _ => (SingleInstance.make groups).map singleInstance

def strategy : TupleGenerator → TupleStrategy
  | roundRobin _ => .roundRobin
  | singleInstance _ => .singleInstance
  | crossProduct _ => .crossProduct

def next? : TupleGenerator → Option (Tuple × TupleGenerator)
  | roundRobin state => state.next?.map fun (tuple, state) => (tuple, roundRobin state)
  | singleInstance state => state.next?.map fun (tuple, state) => (tuple, singleInstance state)
  | crossProduct state => state.next?.map fun (tuple, state) => (tuple, crossProduct state)

/-- No generator gives more tuples than this. -/
def bound : TupleGenerator → Nat
  | roundRobin state => state.group.instances.length
  | singleInstance _ => 1
  | crossProduct state => CrossProduct.total state.groups

def tuplesWithin : Nat → TupleGenerator → List Tuple
  | 0, _ => []
  | n + 1, generator =>
    match generator.next? with
    | none => []
    | some (tuple, generator) => tuple :: tuplesWithin n generator

def tuples (generator : TupleGenerator) : List Tuple := tuplesWithin generator.bound generator

/-- The generator after some tuples, or where it ends before that. -/
def skip : Nat → TupleGenerator → TupleGenerator
  | 0, generator => generator
  | n + 1, generator =>
    match generator.next? with
    | none => generator
    | some (_, generator) => skip n generator

/-- The generator when it has given all its tuples. -/
def spent (generator : TupleGenerator) : TupleGenerator := skip generator.bound generator

end TupleGenerator
end Rulebook
