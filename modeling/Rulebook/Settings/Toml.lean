import Rulebook.Settings.Toml.Scalar
import Rulebook.Settings.Toml.Tree

/-!
# Settings files

Settings files are written in TOML: lines that give a key its value or open a table, with comments
behind them. A value that is a list or a table in braces may go over several lines.
-/
namespace Rulebook.Toml

open Text

/-- What follows a comment, up to the end of its line. -/
def skipComment? : List Char → Option (List Char)
  | '#' :: rest =>
    let after := rest.dropWhile isPrinted
    if after = [] ∨ (lineBreak? after).isSome then some after else none
  | cs => some cs

/-- Nothing but a comment may follow on the line. -/
def endLine? (cs : List Char) : Option (List Char) := do
  match ← skipComment? (skipSpace cs) with
  | [] => some []
  | rest => lineBreak? rest

/-- Blanks, comments and line ends. -/
def skipGap? : Nat → List Char → Option (List Char)
  | 0, cs => some cs
  | fuel + 1, cs => do
    let rest ← skipComment? (skipSpace cs)
    match lineBreak? rest with
    | some rest => skipGap? fuel rest
    | none => some rest

def keyPart? (cs : List Char) : Option (String × List Char) :=
  match skipSpace cs with
  | '"' :: rest => lineText? '"' (rest.length + 1) [] rest
  | '\'' :: rest => lineText? '\'' (rest.length + 1) [] rest
  | cs =>
    match cs.takeWhile Step.isKeyChar with
    | [] => none
    | name => some (String.ofList name, cs.dropWhile Step.isKeyChar)

/-- Parts of a key up to the mark that ends it. -/
def key? (mark : Char) : Nat → List Char → Option (List String × List Char)
  | 0, _ => none
  | fuel + 1, cs => do
    let (part, rest) ← keyPart? cs
    match skipSpace rest with
    | '.' :: rest => do
      let (parts, rest) ← key? mark fuel rest
      some (part :: parts, rest)
    | c :: rest => if c = mark then some ([part], rest) else none
    | [] => none

/-- How deep brackets and braces may nest within a value. -/
def depthLimit : Nat := 80

mutual

/-- A value, with so many brackets around it left to open. Each bracket takes a character, so the
length of the text bounds the rounds. -/
def value? : Nat → Nat → List Char → Option (Loose × List Char)
  | 0, _, _ => none
  | fuel + 1, depth, cs =>
    match skipSpace cs with
    | '[' :: rest => do
      if depth = 0 then none
      else
        let (items, rest) ← items? fuel (depth - 1) [] (← skipGap? rest.length rest)
        some (.list items, rest)
    | '\x7b' :: rest => do
      if depth = 0 then none
      else
        let (entries, rest) ← entries? fuel (depth - 1) [] (← skipGap? rest.length rest)
        some (.table (Node.looseEntries entries), rest)
    | cs => scalar? cs

/-- The items of a list up to its closing bracket, the first ones already read. -/
def items? : Nat → Nat → List Loose → List Char → Option (List Loose × List Char)
  | 0, _, _, _ => none
  | _, _, before, ']' :: rest => some (before, rest)
  | fuel + 1, depth, before, cs => do
    let (v, rest) ← value? fuel depth cs
    match ← skipGap? rest.length rest with
    | ']' :: rest => some (before ++ [v], rest)
    | ',' :: rest => items? fuel depth (before ++ [v]) (← skipGap? rest.length rest)
    | _ => none

/-- The entries of a table in braces. -/
def entries? : Nat → Nat → Table Node → List Char → Option (Table Node × List Char)
  | 0, _, _, _ => none
  | _, _, before, '\x7d' :: rest => some (before, rest)
  | fuel + 1, depth, before, cs => do
    let (path, rest) ← key? '=' (cs.length + 1) cs
    let (v, rest) ← value? fuel depth rest
    let entries ← Node.assign v path before
    match ← skipGap? rest.length rest with
    | '\x7d' :: rest => some (entries, rest)
    | ',' :: rest => entries? fuel depth entries (← skipGap? rest.length rest)
    | _ => none

end

/-- The document so far and the table that is open. -/
structure State where
  entries : Table Node
  here : List String

/-- One line, or the lines of one value. -/
def line? (state : State) (cs : List Char) : Option (State × List Char) :=
  match endLine? cs with
  | some rest => some (state, rest)
  | none =>
    match skipSpace cs with
    | '[' :: '[' :: rest => do
      let (path, rest) ← key? ']' (rest.length + 1) rest
      match rest with
      | ']' :: rest => some (⟨← Node.openNext path state.entries, path⟩, ← endLine? rest)
      | _ => none
    | '[' :: rest => do
      let (path, rest) ← key? ']' (rest.length + 1) rest
      some (⟨← Node.openTable path state.entries, path⟩, ← endLine? rest)
    | cs => do
      let (path, rest) ← key? '=' (cs.length + 1) cs
      let (v, rest) ← value? (rest.length + 1) depthLimit rest
      let entries ← Node.within (Node.assign v path) state.here state.entries
      some ({ state with entries }, ← endLine? rest)

/-- Every line takes at least one character. -/
def lines? : Nat → State → List Char → Option State
  | _, state, [] => some state
  | 0, _, _ => none
  | fuel + 1, state, cs => do
    let (state, rest) ← line? state cs
    lines? fuel state rest

/-- A byte order mark at the start does not count. -/
def withoutMark : List Char → List Char
  | c :: rest => if c.toNat = 0xfeff then rest else c :: rest
  | [] => []

/-- The entries of a document. The mark may stand there twice: once for the file that holds the
document and once for the document itself. -/
def read? (text : String) : Option (Table Loose) := do
  let cs := withoutMark (withoutMark text.toList)
  let state ← lines? cs.length ⟨[], []⟩ cs
  some (Node.looseEntries state.entries)

end Rulebook.Toml
