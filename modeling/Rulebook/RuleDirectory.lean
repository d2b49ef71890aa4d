import Rulebook.Failure
import Rulebook.Json.Reader
import Rulebook.Rule.Json
import Rulebook.RulesetCache

/-!
# Directories of rules

A directory holds each ruleset in a file of its own, named by the URI. A URI is a relative path that
stays within the directory: it has no root, does not start with `.`, and nowhere goes up.
-/
namespace Rulebook

/-- The parts of a path between its slashes. Empty parts vanish, and so does `.` except at the
start. -/
inductive PathPart where
  | root
  | here
  | up
  | name (text : List Char)
deriving DecidableEq

namespace PathPart

def ofText? (text : List Char) : Option PathPart :=
  match text with
  | [] => none
  | ['.'] => none
  | ['.', '.'] => some up
  | _ => some (name text)

/-- What stands between the slashes. -/
def between (path : List Char) : List PathPart := (path.splitOn '/').filterMap ofText?

def leading : List Char → List PathPart
  | '/' :: _ => [root]
  | ['.'] => [here]
  | '.' :: '/' :: _ => [here]
  | _ => []

def ofPath (path : List Char) : List PathPart := leading path ++ between path

def isName : PathPart → Bool
  | name _ => true
  | _ => false

def text : PathPart → List Char
  | root => ['/']
  | here => ['.']
  | up => ['.', '.']
  | name text => text

end PathPart

structure RuleDirectory where
  path : String
  /-- The texts of the files under their normal paths within the directory. -/
  files : Table String

namespace RuleDirectory

def isConfined (uri : String) : Bool :=
  uri ≠ "" && (PathPart.ofPath uri.toList).all PathPart.isName

/-- A path that is taken from a directory. One that has a root leads away from it, and one slash
stands between the two if the directory ends with none. -/
def join (directory path : List Char) : List Char :=
  if path.head? = some '/' then path
  else match directory.getLast? with
    | none | some '/' => directory ++ path
    | some _ => directory ++ '/' :: path

def pathFor (directory : RuleDirectory) (uri : String) : Except Failure String :=
  if isConfined uri then
    .ok (String.ofList (join directory.path.toList (uri ++ ".json").toList))
  else .error (.store (.badUri uri))

def joined : List PathPart → List Char
  | [] => []
  | [part] => part.text
  | part :: rest => part.text ++ '/' :: joined rest

/-- A path within a directory, with one slash between its parts. -/
def normalPath (path : String) : String :=
  String.ofList (joined (PathPart.between path.toList))

def ofFiles (path : String) (files : List (String × String)) : RuleDirectory :=
  ⟨path, Table.ofEntries (files.map fun (name, text) => (normalPath name, text))⟩

/-- The file that a URI names. -/
def file? (directory : RuleDirectory) (uri : String) : Option String :=
  Table.get? directory.files (normalPath (uri ++ ".json"))

def rules (directory : RuleDirectory) : RuleSource := fun uri => do
  let _ ← directory.pathFor uri
  match directory.file? uri with
  | none => pure none
  | some text =>
    match Rule.listOfText? text with
    | some rules => pure (some rules)
    | none => throw .json

end RuleDirectory
end Rulebook
