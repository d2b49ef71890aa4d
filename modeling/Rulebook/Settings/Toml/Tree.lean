import Rulebook.Settings.Place

/-!
# Tables of settings files

A file opens tables by headers and by keys with points in them. A key has one value only, a table
has one header only, and neither reaches into what the other has opened. Headers in double brackets
begin one more table of a list.
-/
namespace Rulebook.Toml

/-- How a table came to be. -/
inductive Origin where
  /-- As a part of a longer header. -/
  | passing
  | header
  /-- As a part of a key. -/
  | key
deriving DecidableEq

inductive Node where
  | value (v : Loose)
  | table (origin : Origin) (entries : List (String × Node))
  /-- The tables of a list, of which the last one is open. -/
  | tables (before : List Loose) (entries : List (String × Node))

namespace Node

mutual

def loose : Node → Loose
  | value v => v
  | table _ entries => .table (looseEntries entries)
  | tables before entries => .list (before ++ [.table (looseEntries entries)])

def looseEntries : List (String × Node) → List (String × Loose)
  | [] => []
  | (key, node) :: rest => (key, loose node) :: looseEntries rest

end

/-- Opens the table of a header. -/
def openTable : List String → Table Node → Option (Table Node)
  | [], _ => none
  | [key], entries =>
    match Table.get? entries key with
    | none => some (Table.put entries key (table .header []))
    | some (table .passing inner) => some (Table.put entries key (table .header inner))
    | some _ => none
  | key :: rest, entries =>
    match Table.get? entries key with
    | none => (openTable rest []).map fun inner => Table.put entries key (table .passing inner)
    | some (table origin inner) =>
      (openTable rest inner).map fun inner => Table.put entries key (table origin inner)
    | some (tables before inner) =>
      (openTable rest inner).map fun inner => Table.put entries key (tables before inner)
    | some (value _) => none

/-- Begins one more table of the list of a header. -/
def openNext : List String → Table Node → Option (Table Node)
  | [], _ => none
  | [key], entries =>
    match Table.get? entries key with
    | none => some (Table.put entries key (tables [] []))
    | some (tables before inner) =>
      some (Table.put entries key (tables (before ++ [.table (looseEntries inner)]) []))
    | some _ => none
  | key :: rest, entries =>
    match Table.get? entries key with
    | none => (openNext rest []).map fun inner => Table.put entries key (table .passing inner)
    | some (table origin inner) =>
      (openNext rest inner).map fun inner => Table.put entries key (table origin inner)
    | some (tables before inner) =>
      (openNext rest inner).map fun inner => Table.put entries key (tables before inner)
    | some (value _) => none

/-- Gives a key its value, within the table where it stands. A key does not reach into the table of
a header. -/
def assign (v : Loose) : List String → Table Node → Option (Table Node)
  | [], _ => none
  | [key], entries =>
    if Table.has entries key then none else some (Table.put entries key (value v))
  | key :: rest, entries =>
    match Table.get? entries key with
    | none => (assign v rest []).map fun inner => Table.put entries key (table .key inner)
    | some (table .header _) | some (tables _ _) | some (value _) => none
    | some (table origin inner) =>
      (assign v rest inner).map fun inner => Table.put entries key (table origin inner)

/-- Changes the table at a path that is there. -/
def within (change : Table Node → Option (Table Node)) :
    List String → Table Node → Option (Table Node)
  | [], entries => change entries
  | key :: rest, entries =>
    match Table.get? entries key with
    | some (table origin inner) =>
      (within change rest inner).map fun inner => Table.put entries key (table origin inner)
    | some (tables before inner) =>
      (within change rest inner).map fun inner => Table.put entries key (tables before inner)
    | _ => none

end Node
end Rulebook.Toml
