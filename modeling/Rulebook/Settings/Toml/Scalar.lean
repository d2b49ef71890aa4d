import Rulebook.Instant
import Rulebook.Settings.Loose

/-!
# Single values of settings files

Texts in quotes or apostrophes, on one line or on several; numbers in four bases; truth values; and
dates and times, which are kept as texts.
-/
namespace Rulebook.Toml

open Text

def hexValue? (c : Char) : Option Nat :=
  if c.isDigit then some (c.toNat - '0'.toNat)
  else if 'a' ≤ c ∧ c ≤ 'f' then some (c.toNat - 'a'.toNat + 10)
  else if 'A' ≤ c ∧ c ≤ 'F' then some (c.toNat - 'A'.toNat + 10)
  else none

/-! ### Texts -/

def isSpace (c : Char) : Bool := c = ' ' || c = '\t'

def skipSpace (cs : List Char) : List Char := cs.dropWhile isSpace

/-- What may stand in a comment or a text, line ends apart. -/
def isPrinted (c : Char) : Bool := c = '\t' || (32 ≤ c.toNat && c.toNat ≠ 127)

/-- What follows the end of a line, if there is one. -/
def lineBreak? : List Char → Option (List Char)
  | '\n' :: rest => some rest
  | '\r' :: '\n' :: rest => some rest
  | _ => none

/-- The character with a code of so many digits, and what follows. -/
def codeChar? (count : Nat) (cs : List Char) : Option (Char × List Char) := do
  let digits := cs.take count
  let values ← digits.mapM hexValue?
  let n := values.foldl (fun n v => n * 16 + v) 0
  if digits.length = count ∧ n.isValidChar then some (Char.ofNat n, cs.drop count) else none

/-- The character that an escape writes, after its backslash. -/
def escape? : List Char → Option (Char × List Char)
  | 'x' :: rest => codeChar? 2 rest
  | 'u' :: rest => codeChar? 4 rest
  | 'U' :: rest => codeChar? 8 rest
  | 'b' :: rest => some (Char.ofNat 8, rest)
  | 't' :: rest => some ('\t', rest)
  | 'n' :: rest => some ('\n', rest)
  | 'f' :: rest => some (Char.ofNat 12, rest)
  | 'r' :: rest => some ('\r', rest)
  | 'e' :: rest => some (Char.ofNat 27, rest)
  | '"' :: rest => some ('"', rest)
  | '\\' :: rest => some ('\\', rest)
  | _ => none

/-- The text of a list of characters, last one first. -/
def reversed (cs : List Char) : String := String.ofList cs.reverse

/-- A text on one line after its opening mark. Escapes stand between quotes only. -/
def lineText? (mark : Char) : Nat → List Char → List Char → Option (String × List Char)
  | 0, _, _ => none
  | _, _, [] => none
  | fuel + 1, before, c :: rest =>
    if c = mark then some (reversed before, rest)
    else if c = '\\' ∧ mark = '"' then do
      let (x, rest) ← escape? rest
      lineText? mark fuel (x :: before) rest
    else if isPrinted c then lineText? mark fuel (c :: before) rest
    else none

/-- All blanks and line ends. -/
def skipLines : List Char → List Char
  | '\r' :: '\n' :: rest => skipLines rest
  | c :: rest => if isSpace c || c = '\n' then skipLines rest else c :: rest
  | [] => []

/-- A text on several lines. Up to two marks may stand before the three that close it. A backslash
at the end of a line takes all blanks and line ends with it. -/
def blockText? (mark : Char) : Nat → List Char → List Char → Option (String × List Char)
  | 0, _, _ => none
  | _, _, [] => none
  | fuel + 1, before, c :: rest =>
    if c = mark ∧ rest.take 2 = [mark, mark] then
      let more := ((rest.drop 2).takeWhile (· = mark)).take 2
      some (reversed (more ++ before), rest.drop (2 + more.length))
    else if c = '\\' ∧ mark = '"' then
      if (lineBreak? (skipSpace rest)).isSome then
        blockText? mark fuel before (skipLines rest)
      else do
        let (x, rest) ← escape? rest
        blockText? mark fuel (x :: before) rest
    else match lineBreak? (c :: rest) with
      | some rest => blockText? mark fuel ('\n' :: before) rest
      | none => if isPrinted c then blockText? mark fuel (c :: before) rest else none

/-- A text after its first mark. A line end right behind three opening marks does not count. -/
def text? (mark : Char) (cs : List Char) : Option (String × List Char) :=
  if cs.take 2 = [mark, mark] then
    let rest := cs.drop 2
    blockText? mark (rest.length + 1) [] ((lineBreak? rest).getD rest)
  else lineText? mark (cs.length + 1) [] cs

/-! ### Numbers -/

/-- Digits with single underscores between them. -/
def digits? (isDigit : Char → Bool) (cs : List Char) : Option (List Char) :=
  let kept := cs.filter (· ≠ '_')
  let parts := (String.ofList cs).splitOn "_"
  if kept ≠ [] ∧ kept.all isDigit ∧ parts.all (· ≠ "") then some kept else none

def radix? (base : Nat) (isDigit : Char → Bool) (cs : List Char) : Option Loose := do
  let digits ← digits? isDigit cs
  let values ← digits.mapM hexValue?
  let n := values.foldl (fun n v => n * base + v) 0
  if fitsSigned n then some (.integer n) else none

/-- No zero stands before other digits. -/
def decimal? (cs : List Char) : Option (List Char) := do
  let digits ← digits? Char.isDigit cs
  if digits.head? = some '0' ∧ digits.length ≠ 1 then none else some digits

def integer? (cs : List Char) : Option Loose := do
  let (negative, magnitude) := Loose.sign cs
  let digits ← decimal? magnitude
  let n := Scan.value digits
  let value : Int := if negative then -(n : Int) else n
  if fitsSigned value then some (.integer value) else none

/-- A number that is not beyond all finite ones. -/
def finite? : Real → Option Loose
  | .finite d => some (.real (.finite d))
  | _ => none

/-- A whole part, and behind it places, an exponent or both. -/
def real? (cs : List Char) : Option Loose := do
  let (_, magnitude) := Loose.sign cs
  let text := String.ofList (cs.filter (· ≠ '_'))
  if magnitude = ['i', 'n', 'f'] ∨ magnitude = ['n', 'a', 'n'] then
    (Loose.real? text).map .real
  else
    let isMark := fun c => c = 'e' || c = 'E'
    let before := magnitude.takeWhile fun c => !isMark c
    let _ ← decimal? (before.takeWhile (· ≠ '.'))
    let _ ← match before.dropWhile (· ≠ '.') with
      | [] => some []
      | _ :: places => digits? Char.isDigit places
    let _ ← match magnitude.dropWhile fun c => !isMark c with
      | [] => some []
      | _ :: exponent => digits? Char.isDigit (Loose.sign exponent).2
    (Loose.real? text).bind finite?

/-! ### Dates and times -/

/-- So many characters as they stand, if they are digits whose number passes the test. -/
def part (count : Nat) (test : Nat → Bool) : Scan (List Char) := do
  let cs ← get
  let n ← Scan.digits count
  if test n then pure (cs.take count) else failure

def date : Scan (List Char) := do
  let cs ← get
  let year ← Scan.digits 4
  Scan.exactly '-'
  let month ← Scan.digits 2
  Scan.exactly '-'
  let day ← Scan.digits 2
  if (⟨year, month, day⟩ : Date).Exists then pure (cs.take 10) else failure

/-- Hours and minutes; seconds and their places may be missing. -/
def time : Scan (List Char) := do
  let hours ← part 2 (· < 24)
  Scan.exactly ':'
  let minutes ← part 2 (· < 60)
  let upToMinutes := hours ++ ':' :: minutes
  if (← Scan.peek) = some ':' then
    Scan.exactly ':'
    let seconds ← part 2 (· ≤ 60)
    let upToSeconds := upToMinutes ++ ':' :: seconds
    if (← Scan.peek) = some '.' then
      Scan.exactly '.'
      match ← Scan.span Char.isDigit with
      | [] => failure
      | places =>
        let kept := ((places.take 9).reverse.dropWhile (· = '0')).reverse
        pure (upToSeconds ++ if kept = [] then [] else '.' :: kept)
    else pure upToSeconds
  else pure upToMinutes

def offset : Scan (List Char) := do
  match ← Scan.one fun c => c = 'Z' || c = 'z' || c = '+' || c = '-' with
  | 'Z' | 'z' => pure ['Z']
  | sign =>
    let hours ← part 2 (· < 24)
    Scan.exactly ':'
    let minutes ← part 2 (· < 60)
    pure (sign :: hours ++ ':' :: minutes)

/-- A time behind a date, and perhaps an offset behind it. -/
def timeOfDay : Scan (List Char) := do
  let _ ← Scan.one fun c => c = 'T' || c = 't' || c = ' '
  let time ← time
  let zone ← offset <|> pure []
  pure ('T' :: time ++ zone)

def moment : Scan Loose := do
  let text ← (do
    let date ← date
    let rest ← timeOfDay <|> pure []
    pure (date ++ rest)) <|> time
  pure (.text (String.ofList text))

/-! ### Any of them -/

def isMark (c : Char) : Bool := isSpace c || ['\n', '\r', '#', ',', ']', '\x7d'].contains c

def word? (cs : List Char) : Option Loose :=
  match cs with
  | ['t', 'r', 'u', 'e'] => some (.bool true)
  | ['f', 'a', 'l', 's', 'e'] => some (.bool false)
  | '0' :: 'x' :: rest => radix? 16 (fun c => (hexValue? c).isSome) rest
  | '0' :: 'o' :: rest => radix? 8 (fun c => '0' ≤ c && c ≤ '7') rest
  | '0' :: 'b' :: rest => radix? 2 (fun c => c = '0' || c = '1') rest
  | cs => if (decimal? (Loose.sign cs).2).isSome then integer? cs else real? cs

def scalar? (cs : List Char) : Option (Loose × List Char) :=
  match cs with
  | '"' :: rest => (text? '"' rest).map fun (text, rest) => (.text text, rest)
  | '\'' :: rest => (text? '\'' rest).map fun (text, rest) => (.text text, rest)
  | cs =>
    match moment cs with
    | some found => some found
    | none =>
      (word? (cs.takeWhile fun c => !isMark c)).map (·, cs.dropWhile fun c => !isMark c)

end Rulebook.Toml
