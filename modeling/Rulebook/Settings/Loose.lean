import Rulebook.Settings
import Rulebook.Text.Scan

/-!
# Loose settings

Settings that come from files and from the environment are written more loosely than JSON: a truth
value may be a number or a word such as `on`, and a number may be a text. Tables are laid over each
other key by key.
-/
namespace Rulebook

/-- A number that is read from a text; it may be beyond all finite ones. -/
inductive Real where
  | finite (value : Double)
  | infinite (negative : Bool)
  | undefined
deriving DecidableEq

inductive Loose where
  /-- What a list holds in places that have not been set. -/
  | nil
  | bool (value : Bool)
  | integer (value : Int)
  | real (value : Real)
  | text (value : String)
  | list (items : List Loose)
  | table (entries : List (String × Loose))
deriving Inhabited

namespace Real

def isZero : Real → Bool
  | finite d => d.rank = 0
  | _ => false

/-- The nearest natural number, a half away from zero, kept within 64 bits. -/
def toNat : Real → Nat
  | finite d =>
    if d.negative then 0
    else
      let units := d.significand * Nat.pow 2 d.scale
      min ((2 * units + Double.unit) / (2 * Double.unit)) 18446744073709551615
  | infinite negative => if negative then 0 else 18446744073709551615
  | undefined => 0

/-- All digits, without a point when there is nothing behind it. -/
def chars : Real → List Char
  | finite d =>
    let sign := if d.negative then ['-'] else []
    if d.rank = 0 then sign ++ ['0']
    else
      let written := d.shortest.positional
      let whole : Int := d.shortest.digits.length
      sign ++ if whole ≤ d.shortest.point then written.take (written.length - 2) else written
  | infinite negative => if negative then ['-', 'i', 'n', 'f'] else ['i', 'n', 'f']
  | undefined => ['N', 'a', 'N']

end Real

namespace Loose

open Text

def lower (text : String) : String := String.ofList (text.toList.map Char.toLower)

def sign : List Char → Bool × List Char
  | '-' :: rest => (true, rest)
  | '+' :: rest => (false, rest)
  | cs => (false, cs)

def natural? (cs : List Char) : Option Nat :=
  if cs ≠ [] ∧ cs.all Char.isDigit then some (Scan.value cs) else none

/-- A decimal integer of 64 bits with a sign. -/
def signed? (text : String) : Option Int := do
  let (negative, digits) := sign text.toList
  let n ← natural? digits
  let value : Int := if negative then -(n : Int) else n
  if fitsSigned value then some value else none

/-- A decimal integer of 64 bits without a minus sign. -/
def unsigned? (text : String) : Option Nat := do
  let digits := match text.toList with
    | '+' :: rest => rest
    | cs => cs
  let n ← natural? digits
  if fitsUnsigned n then some n else none

/-- Digits with a point and an exponent, both optional; at least one digit before the exponent. -/
def real? (text : String) : Option Real := do
  let (negative, cs) := sign text.toList
  match lower (String.ofList cs) with
  | "inf" => some (.infinite negative)
  | "infinity" => some (.infinite negative)
  | "nan" => some .undefined
  | _ => do
    let whole := cs.takeWhile Char.isDigit
    let (places, rest) := match cs.dropWhile Char.isDigit with
      | '.' :: more => (more.takeWhile Char.isDigit, more.dropWhile Char.isDigit)
      | rest => ([], rest)
    if whole = [] ∧ places = [] then none
    else
      let exponent ← match rest with
        | [] => some (0 : Int)
        | mark :: rest =>
          if mark = 'e' ∨ mark = 'E' then do
            let (down, digits) := sign rest
            let n ← natural? digits
            some (if down then -(n : Int) else n)
          else none
      let units := Scan.value (whole ++ places)
      match Double.ofDecimal? negative units (exponent - places.length) with
      | some d => some (.finite d)
      | none => some (.infinite negative)

/-- What a text stands for when nothing says that it is one. -/
def ofText (text : String) : Loose :=
  match lower text with
  | "true" => bool true
  | "false" => bool false
  | _ =>
    match signed? text, real? text with
    | some n, _ => integer n
    | none, some r => real r
    | none, none => .text text

def toBool? : Loose → Option Bool
  | bool b => some b
  | integer n => some (n ≠ 0)
  | real r => some (!r.isZero)
  | .text s =>
    match lower s with
    | "1" | "true" | "on" | "yes" => some true
    | "0" | "false" | "off" | "no" => some false
    | _ => none
  | nil | list _ | table _ => none

def toNat? : Loose → Option Nat
  | bool b => some (if b then 1 else 0)
  | integer n => if 0 ≤ n then some n.toNat else none
  | real r => some r.toNat
  | .text s =>
    match lower s with
    | "true" | "on" | "yes" => some 1
    | "false" | "off" | "no" => some 0
    | _ => unsigned? s
  | nil | list _ | table _ => none

def toText? : Loose → Option String
  | bool b => some (if b then "true" else "false")
  | integer n => some (toString n)
  | real r => some (String.ofList r.chars)
  | .text s => some s
  | nil | list _ | table _ => none

/-- Nothing, or something that is read. -/
def optional? {α : Type} (read : Loose → Option α) : Loose → Option (Option α)
  | nil => some none
  | v => (read v).map some

def entries? : Loose → Option (Table Loose)
  | table entries => some entries
  | _ => none

def items? : Loose → Option (List Loose)
  | list items => some items
  | _ => none

/-- The fields of a record with these names: the entries of a table, or the items of a list in their
order. What else there is does not count. -/
def fields? (names : List String) : Loose → Option (List (Option Loose))
  | table entries => some (names.map (Table.get? entries))
  | list items => some ((List.range names.length).map (items[·]?))
  | _ => none

/-- A field with a standard value for when it is not there. -/
def field? {α : Type} (fields : List (Option Loose)) (i : Nat) (standard : α)
    (read : Loose → Option α) : Option α :=
  match fields[i]? with
  | some (some value) => read value
  | _ => some standard

end Loose

open Loose

/-- As a list a policy must have both of its fields. -/
def FunctionPolicy.ofLoose? (v : Loose) : Option FunctionPolicy := do
  if v.items?.any (·.length < 2) then none
  else
    let fields ← v.fields? ["cacheable", "expiration_seconds"]
    let keep ← field? fields 0 none (optional? toBool?)
    let lifetime ← field? fields 1 none (optional? toNat?)
    pure { keep, lifetime }

def CachePolicy.ofLoose? (v : Loose) : Option CachePolicy := do
  let fields ← v.fields? ["default_cacheable", "default_expiration_seconds", "functions"]
  let keep ← field? fields 0 CachePolicy.standard.keep toBool?
  let lifetime ← field? fields 1 CachePolicy.standard.lifetime toNat?
  let functions ← field? fields 2 [] fun functions => do
    let policies ← functions.entries?
    policies.mapM fun (name, policy) => do pure (name, ← FunctionPolicy.ofLoose? policy)
  pure { keep, lifetime, functions }

def LogSettings.ofLoose? (v : Loose) : Option LogSettings := do
  let fields ← v.fields? ["log_level", "json_logs"]
  let level ← field? fields 0 "info" toText?
  let json ← field? fields 1 false toBool?
  pure { level, json }

def Settings.ofLoose? (v : Loose) : Option Settings := do
  let fields ← v.fields? Settings.fieldNames
  let sequential ← field? fields 0 standard.sequential toBool?
  let crossProduct ← field? fields 1 standard.crossProduct toBool?
  let refreshSeconds ← field? fields 2 standard.refreshSeconds toNat?
  let strict ← field? fields 3 standard.strict toBool?
  let checksDates ← field? fields 4 standard.checksDates toBool?
  let functionCache ← field? fields 5 standard.functionCache CachePolicy.ofLoose?
  let log ← field? fields 6 standard.log LogSettings.ofLoose?
  pure { sequential, crossProduct, refreshSeconds, strict, checksDates, functionCache, log }

end Rulebook
