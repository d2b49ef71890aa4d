import Rulebook.Pattern.Size
import Rulebook.Text.Letter

/-!
# Reading patterns

The text of a pattern is read from left to right, with a stack of the groups that are open. Flags
hold to the end of the group that sets them. Every step takes at least one character, so the length
of the text bounds the number of steps.
-/
namespace Rulebook.Pattern

open Text

structure Flags where
  caseless : Bool := false
  multiLine : Bool := false
  dotAll : Bool := false
  crlf : Bool := false
  unicode : Bool := true
  /-- Blanks and comments stand between the parts of the pattern. -/
  extended : Bool := false

namespace Flags

def set (flags : Flags) (letter : Char) (on : Bool) : Flags :=
  match letter with
  | 'i' => { flags with caseless := on }
  | 'm' => { flags with multiLine := on }
  | 's' => { flags with dotAll := on }
  | 'R' => { flags with crlf := on }
  | 'u' => { flags with unicode := on }
  | 'x' => { flags with extended := on }
  | _ => flags

/-- What follows blanks and comments; a comment ends with its line. -/
def skipFrom : (comment : Bool) → List Char → List Char
  | _, [] => []
  | true, c :: rest => skipFrom (c ≠ '\n') rest
  | false, c :: rest =>
    if isBlank c then skipFrom false rest
    else if c = '#' then skipFrom true rest
    else c :: rest

def skip (flags : Flags) (cs : List Char) : List Char :=
  if flags.extended then skipFrom false cs else cs

end Flags

/-- What an escape or a plain character stands for. -/
inductive Atom where
  | char (c : Char)
  | cls (a : CharClass)
  | look (condition : Look)

namespace Atom

def hexValue? (c : Char) : Option Nat :=
  if c.isDigit then some (c.toNat - '0'.toNat)
  else if 'a' ≤ c ∧ c ≤ 'f' then some (c.toNat - 'a'.toNat + 10)
  else if 'A' ≤ c ∧ c ≤ 'F' then some (c.toNat - 'A'.toNat + 10)
  else none

def ofCode (n : Nat) : Except Fault Atom :=
  if n.isValidChar then .ok (.char (Char.ofNat n)) else .error .badEscape

def hexDigits (flags : Flags) : Nat → Nat → List Char → Except Fault (Nat × List Char)
  | 0, n, cs => .ok (n, cs)
  | count + 1, n, cs =>
    match flags.skip cs with
    | [] => .error .badEscape
    | c :: rest =>
      match hexValue? c with
      | some v => hexDigits flags count (n * 16 + v) rest
      | none => .error .badEscape

/-- The digits after an opening brace, at least one. -/
def hexBraced (flags : Flags) : Nat → Option Nat → List Char → Except Fault (Nat × List Char)
  | 0, _, _ => .error .badEscape
  | fuel + 1, n, cs =>
    match flags.skip cs, n with
    | '\x7d' :: rest, some n => .ok (n, rest)
    | c :: rest, _ =>
      match hexValue? c with
      | some v => hexBraced flags fuel (some (n.getD 0 * 16 + v)) rest
      | none => .error .badEscape
    | [], _ => .error .badEscape

def hex (flags : Flags) (count : Nat) (cs : List Char) : Except Fault (Atom × List Char) := do
  match flags.skip cs with
  | '\x7b' :: rest => do
    let (n, rest) ← hexBraced flags (rest.length + 1) none rest
    pure (← ofCode n, rest)
  | cs => do
    let (n, rest) ← hexDigits flags count 0 cs
    if !flags.unicode ∧ count = 2 ∧ 128 ≤ n then throw .notText
    pure (← ofCode n, rest)

def asciiDigit : CharClass := .range '0' '9'

def asciiSpace : CharClass := .or (.range '\t' '\r') (.single ' ')

def asciiLower : CharClass := .range 'a' 'z'

def asciiUpper : CharClass := .range 'A' 'Z'

def asciiAlpha : CharClass := .or asciiUpper asciiLower

def asciiAlnum : CharClass := .or asciiDigit asciiAlpha

def asciiWord : CharClass := .or asciiAlnum (.single '_')

def named (flags : Flags) (letter : Char) : CharClass :=
  let positive : CharClass := match letter.toLower, flags.unicode with
    | 'd', true => .digit
    | 'd', false => asciiDigit
    | 's', true => .space
    | 's', false => asciiSpace
    | _, true => .word
    | _, false => asciiWord
  if letter.isUpper then .not positive else positive

def isMeta (c : Char) : Bool :=
  ['\\', '.', '+', '*', '?', '(', ')', '|', '[', ']', '\x7b', '\x7d', '^', '$', '#', '&', '-',
    '~'].contains c

/-- Characters that stand for themselves after a backslash. -/
def isEscapable (c : Char) : Bool :=
  isMeta c || (c.toNat < 128 && !c.isAlphanum && c ≠ '<' && c ≠ '>')

def edgeName (c : Char) : Bool := c = '-' || c.isAlpha

def edgeLetters (flags : Flags) : Nat → List Char → List Char × List Char
  | 0, cs => ([], cs)
  | fuel + 1, cs =>
    match cs with
    | c :: rest =>
      if edgeName c then
        let (letters, rest) := edgeLetters flags fuel (flags.skip rest)
        (c :: letters, rest)
      else ([], cs)
    | [] => ([], [])

/-- After `\b`: a brace with a letter after it names one side of an edge; any other brace counts
repetitions. -/
def edge (flags : Flags) (cs : List Char) : Except Fault (Atom × List Char) :=
  let plain : Atom := .look (.wordEdge flags.unicode)
  match cs with
  | '\x7b' :: rest =>
    match flags.skip rest with
    | [] => .error .badEscape
    | c :: more =>
      if edgeName c then
        match edgeLetters flags (more.length + 2) (c :: more) with
        | (letters, '\x7d' :: rest) =>
          match String.ofList letters with
          | "start" => .ok (.look (.wordStart flags.unicode), rest)
          | "end" => .ok (.look (.wordEnd flags.unicode), rest)
          | "start-half" => .ok (.look (.noWordBefore flags.unicode), rest)
          | "end-half" => .ok (.look (.noWordAfter flags.unicode), rest)
          | _ => .error .badEscape
        | _ => .error .badEscape
      else .ok (plain, cs)
  | _ => .ok (plain, cs)

/-- What follows a backslash. -/
def escape (flags : Flags) : List Char → Except Fault (Atom × List Char)
  | [] => .error .badEscape
  | c :: rest =>
    if c.isDigit then .error .backReference
    else if isEscapable c then .ok (.char c, rest)
    else match c with
      | 'x' => hex flags 2 rest
      | 'u' => hex flags 4 rest
      | 'U' => hex flags 8 rest
      | 'p' | 'P' => .error .unknownProperty
      | 'd' | 'D' | 's' | 'S' | 'w' | 'W' => .ok (.cls (named flags c), rest)
      | 'a' => .ok (.char (Char.ofNat 7), rest)
      | 'f' => .ok (.char (Char.ofNat 12), rest)
      | 't' => .ok (.char '\t', rest)
      | 'n' => .ok (.char '\n', rest)
      | 'r' => .ok (.char '\r', rest)
      | 'v' => .ok (.char (Char.ofNat 11), rest)
      | 'A' => .ok (.look .textStart, rest)
      | 'z' => .ok (.look .textEnd, rest)
      | 'b' => edge flags rest
      | 'B' => .ok (.look (.noWordEdge flags.unicode), rest)
      | '<' => .ok (.look (.wordStart flags.unicode), rest)
      | '>' => .ok (.look (.wordEnd flags.unicode), rest)
      | _ => .error .badEscape

end Atom

/-- Outside Unicode mode a class may hold ASCII alone. -/
def checkedClass (flags : Flags) (a : CharClass) : Except Fault CharClass :=
  if !flags.unicode ∧ a.has (Char.ofNat 128) then .error .notText else .ok a

def ignoringCase (flags : Flags) (a : CharClass) : CharClass :=
  if flags.caseless then .caseless flags.unicode a else a

/-! ### Bracketed classes -/

inductive SetOp where
  | and
  | minus
  | xor

/-- A bracket that is open: the union of what stands in it, after an operator that waits. With both
sides goes how deep they nest. -/
structure Bracket where
  negated : Bool
  waiting : Option (SetOp × CharClass × Nat)
  union : CharClass
  items : Nat
  deepest : Nat

namespace Bracket

def start (negated : Bool) : Bracket := ⟨negated, none, .none, 0, 0⟩

def addNested (b : Bracket) (a : CharClass) (depth : Nat) : Bracket :=
  { b with union := .or b.union a, items := b.items + 1, deepest := max b.deepest depth }

def add (b : Bracket) (a : CharClass) : Bracket := b.addNested a 0

/-- A union of several items is a level of its own, and so is an operator. -/
def depth (b : Bracket) : Nat :=
  let right := if b.items ≤ 1 then b.deepest else b.deepest + 1
  match b.waiting with
  | none => right
  | some (_, _, left) => max left right + 1

def value (flags : Flags) (b : Bracket) : CharClass :=
  match b.waiting with
  | none => b.union
  | some (op, left, _) =>
    let left := ignoringCase flags left
    let right := ignoringCase flags b.union
    match op with
    | .and => .and left right
    | .minus => .minus left right
    | .xor => .xor left right

/-- An operator applies to all that stands before it. -/
def operator (flags : Flags) (b : Bracket) (op : SetOp) : Bracket :=
  { Bracket.start b.negated with waiting := some (op, b.value flags, b.depth) }

def close (flags : Flags) (b : Bracket) : CharClass :=
  let a := ignoringCase flags (b.value flags)
  if b.negated then .not a else a

def dashes (flags : Flags) : Nat → Bracket → List Char → Bracket × List Char
  | 0, b, cs => (b, cs)
  | fuel + 1, b, cs =>
    match cs with
    | '-' :: rest => dashes flags fuel (b.add (.single '-')) (flags.skip rest)
    | _ => (b, cs)

/-- After the bracket: a mark of negation, dashes, and a closing bracket that stands for itself. -/
def opened (flags : Flags) (cs : List Char) : Except Fault (Bracket × List Char) :=
  let (negated, cs) := match flags.skip cs with
    | '^' :: rest => (true, flags.skip rest)
    | cs => (false, cs)
  let (b, rest) := dashes flags (cs.length + 1) (start negated) cs
  match cs, rest with
  | ']' :: rest, _ =>
    match flags.skip rest with
    | [] => .error .badClass
    | rest => .ok (b.add (.single ']'), rest)
  | _, [] => .error .badClass
  | _, rest => .ok (b, rest)

def posix? (name : String) : Option CharClass :=
  match name with
  | "alnum" => some Atom.asciiAlnum
  | "alpha" => some Atom.asciiAlpha
  | "ascii" => some (.range (Char.ofNat 0) (Char.ofNat 127))
  | "blank" => some (.or (.single '\t') (.single ' '))
  | "cntrl" => some (.or (.range (Char.ofNat 0) (Char.ofNat 31)) (.single (Char.ofNat 127)))
  | "digit" => some Atom.asciiDigit
  | "graph" => some (.range '!' '~')
  | "lower" => some Atom.asciiLower
  | "print" => some (.range ' ' '~')
  | "punct" => some (.or (.or (.range '!' '/') (.range ':' '@'))
      (.or (.range '[' (Char.ofNat 96)) (.range '\x7b' '~')))
  | "space" => some Atom.asciiSpace
  | "upper" => some Atom.asciiUpper
  | "word" => some Atom.asciiWord
  | "xdigit" => some (.or Atom.asciiDigit (.or (.range 'a' 'f') (.range 'A' 'F')))
  | _ => none

/-- A named class such as `[:alpha:]`, after its bracket. -/
def namedClass? (flags : Flags) : List Char → Option (CharClass × List Char)
  | ':' :: rest =>
    let (negated, rest) := match rest with
      | '^' :: rest => (true, rest)
      | _ => (false, rest)
    match rest.dropWhile (· ≠ ':') with
    | ':' :: ']' :: after =>
      (posix? (String.ofList (rest.takeWhile (· ≠ ':')))).map fun a =>
        let a := ignoringCase flags a
        (if negated then .not a else a, after)
    | _ => none
  | _ => none

/-- One end of a range, or an item of its own. -/
def item (flags : Flags) : List Char → Except Fault (Atom × List Char)
  | '\\' :: rest => Atom.escape flags rest
  | c :: rest => .ok (.char c, rest)
  | [] => .error .badClass

def literal (flags : Flags) : Atom → Except Fault Char
  | .char c => if !flags.unicode ∧ 128 ≤ c.toNat then .error .notText else .ok c
  | _ => .error .badRange

/-- The character behind a dash, past blanks. Of a comment the first character counts. -/
def ahead (flags : Flags) (cs : List Char) : Option Char :=
  if flags.extended then
    match cs.dropWhile isBlank with
    | '#' :: rest => (rest.dropWhile isBlank).head?
    | cs => cs.head?
  else cs.head?

/-- An item or a range of characters. A dash before the closing bracket or before another dash
makes no range. -/
def itemOrRange (flags : Flags) (cs : List Char) : Except Fault (CharClass × List Char) := do
  let (first, rest) ← item flags cs
  let rest := flags.skip rest
  let alone : Except Fault (CharClass × List Char) := match first with
    | .cls a => do pure (← checkedClass flags a, rest)
    | .look _ => .error .badClass
    | .char _ => do pure (.single (← literal flags first), rest)
  match rest with
  | [] => .error .badClass
  | '-' :: more =>
    if ahead flags more = some ']' ∨ ahead flags more = some '-' then alone
    else do
      let (last, rest) ← item flags (flags.skip more)
      let first ← literal flags first
      let last ← literal flags last
      if first ≤ last then pure (.range first last, rest) else .error .badRange
  | _ => alone

/-- The class and how deep its brackets nest. -/
def read (flags : Flags) : Nat → List Bracket → Bracket → List Char →
    Except Fault (CharClass × Nat × List Char)
  | 0, _, _, _ => .error .badClass
  | fuel + 1, outer, b, cs =>
    match flags.skip cs with
    | [] => .error .badClass
    | ']' :: rest =>
      match outer with
      | [] => do pure (← checkedClass flags (b.close flags), b.depth + 1, rest)
      | parent :: outer => do
        let a ← checkedClass flags (b.close flags)
        read flags fuel outer (parent.addNested a (b.depth + 1)) rest
    | '[' :: rest =>
      match namedClass? flags rest with
      | some (a, rest) => do read flags fuel outer (b.add (← checkedClass flags a)) rest
      | none => do
        let (inner, rest) ← opened flags rest
        read flags fuel (b :: outer) inner rest
    | '&' :: '&' :: rest => read flags fuel outer (b.operator flags .and) rest
    | '-' :: '-' :: rest => read flags fuel outer (b.operator flags .minus) rest
    | '~' :: '~' :: rest => read flags fuel outer (b.operator flags .xor) rest
    | cs => do
      let (a, rest) ← itemOrRange flags cs
      read flags fuel outer (b.add a) rest

end Bracket

/-! ### Groups and repetitions -/

/-- A part of a pattern, how deep it nests, and whether a repetition may follow it. -/
structure Piece where
  pattern : Pattern
  depth : Nat
  repeatable : Bool

namespace Piece

def leaf (pattern : Pattern) : Piece := ⟨pattern, 0, true⟩

def maxDepth (pieces : List Piece) : Nat :=
  pieces.foldl (fun n piece => max n piece.depth) 0

/-- Pieces one after the other. -/
def sequence : List Piece → Piece
  | [] => ⟨nothing, 0, false⟩
  | [piece] => piece
  | piece :: rest =>
    ⟨.seq piece.pattern (rest.foldr (fun q p => .seq q.pattern p) nothing),
      maxDepth (piece :: rest) + 1, true⟩

/-- Pieces one of which is chosen. -/
def choice : List Piece → Piece
  | [] => ⟨nothing, 0, false⟩
  | [piece] => piece
  | piece :: second :: rest =>
    ⟨.either piece.pattern
        (rest.foldl (fun p q => .either p q.pattern) second.pattern),
      maxDepth (piece :: second :: rest) + 1, true⟩

end Piece

/-- A group that is open: its number if it captures, the branches behind it and the pieces of the
current one, both last first, and the flags to return to. -/
structure Level where
  flags : Flags
  number : Option Nat
  branches : List Piece
  pieces : List Piece

namespace Level

def start (flags : Flags) (number : Option Nat) : Level := ⟨flags, number, [], []⟩

def add (level : Level) (piece : Piece) : Level := { level with pieces := piece :: level.pieces }

def branch (level : Level) : Level :=
  { level with
    branches := Piece.sequence level.pieces.reverse :: level.branches
    pieces := [] }

def close (level : Level) : Piece := Piece.choice level.branch.branches.reverse

end Level

structure State where
  flags : Flags
  names : List (List Char)
  /-- How many groups that capture have been opened. -/
  captures : Nat
  level : Level
  outer : List Level

namespace State

def add (s : State) (piece : Piece) : State := { s with level := s.level.add piece }

def addAtom (s : State) : Atom → Except Fault State
  | .char c =>
    if !s.flags.unicode ∧ s.flags.caseless ∧ 128 ≤ c.toNat then .error .notText
    else .ok (s.add (.leaf (.one (ignoringCase s.flags (.single c)))))
  | .cls a => do pure (s.add (.leaf (.one (← checkedClass s.flags a))))
  | .look condition => .ok (s.add (.leaf (.look condition)))

def anyChar (flags : Flags) : CharClass :=
  if flags.dotAll then .not .none
  else if flags.crlf then .not (.or (.single '\n') (.single '\r'))
  else .not (.single '\n')

/-- A name begins with a letter or an underscore. -/
def isNameChar (first : Bool) (c : Char) : Bool :=
  c = '_' || isLetter c || (!first && (c = '.' || c = '[' || c = ']' || isNumeric c))

/-- The letters and dashes of a list of flags up to `:` or `)`: the flags that they give, and
whether there are any. -/
def flagItems (flags : Flags) (on : Bool) (dangling : Bool) (seen : List Char) :
    List Char → Except Fault (Flags × Bool × Char × List Char)
  | [] => .error .badFlags
  | c :: rest =>
    if c = ':' ∨ c = ')' then
      if dangling then .error .badFlags else .ok (flags, !seen.isEmpty, c, rest)
    else if c = '-' then
      if on then flagItems flags false true seen rest else .error .badFlags
    else if ['i', 'm', 's', 'U', 'u', 'R', 'x'].contains c ∧ !seen.contains c then
      flagItems (flags.set c on) on false (c :: seen) rest
    else .error .badFlags

/-- A group is open from here on, with flags of its own. -/
def enter (s : State) (flags : Flags) (number : Option Nat) : State :=
  { s with flags := flags, level := .start s.flags number, outer := s.level :: s.outer }

def enterCapture (s : State) : State :=
  { s.enter s.flags (some (s.captures + 1)) with captures := s.captures + 1 }

def groupName (s : State) (cs : List Char) : Except Fault (State × List Char) :=
  let name := cs.takeWhile (· ≠ '>')
  match cs.drop name.length, name with
  | [], _ => .error .badGroupName
  | _, [] => .error .badGroupName
  | _ :: rest, first :: others =>
    if !isNameChar true first ∨ !others.all (isNameChar false) then .error .badGroupName
    else if s.names.contains name then .error .repeatedGroupName
    else .ok ({ s.enterCapture with names := name :: s.names }, rest)

/-- After an opening parenthesis. -/
def openGroup (s : State) (cs : List Char) : Except Fault (State × List Char) :=
  match s.flags.skip cs with
  | '?' :: '=' :: _ | '?' :: '!' :: _ | '?' :: '<' :: '=' :: _ | '?' :: '<' :: '!' :: _ =>
    .error .lookAround
  | '?' :: 'P' :: '<' :: rest => s.groupName rest
  | '?' :: '<' :: rest => s.groupName rest
  | ['?'] => .error .unclosedGroup
  | '?' :: rest => do
    let (flags, any, mark, rest) ← flagItems s.flags true false [] rest
    if mark = ':' then pure (s.enter flags none, rest)
    else if any then pure ({ s with flags := flags }.add ⟨nothing, 0, false⟩, rest)
    else throw .nothingToRepeat
  | cs => .ok (s.enterCapture, cs)

def closeGroup (s : State) : Except Fault State :=
  match s.outer with
  | [] => .error .unopenedGroup
  | parent :: outer =>
    let inner := s.level.close
    .ok
      { s with
        flags := s.level.flags
        level := parent.add ⟨.group s.level.number inner.pattern, inner.depth + 1, true⟩
        outer := outer }

/-- The last piece is repeated. -/
def repeatLast (s : State) (least : Nat) (most : Option Nat) : Except Fault State :=
  match s.level.pieces with
  | piece :: rest =>
    if piece.repeatable then
      .ok { s with level := { s.level with
        pieces := ⟨.repeated piece.pattern least most, piece.depth + 1, true⟩ :: rest } }
    else .error .nothingToRepeat
  | [] => .error .nothingToRepeat

def countDigits (flags : Flags) : Nat → List Char → List Char × List Char
  | 0, cs => ([], cs)
  | fuel + 1, cs =>
    match cs with
    | c :: rest =>
      if c.isDigit then
        let (digits, rest) := countDigits flags fuel (flags.skip rest)
        (c :: digits, rest)
      else ([], cs)
    | [] => ([], [])

/-- A count below `2 ^ 32` with blanks around it. -/
def count (flags : Flags) (cs : List Char) : Except Fault (Nat × List Char) :=
  let cs := cs.dropWhile isBlank
  match countDigits flags (cs.length + 1) cs with
  | ([], _) => .error .badCount
  | (digits, rest) =>
    let n := digits.foldl (fun n c => n * 10 + (c.toNat - '0'.toNat)) 0
    if n < 4294967296 then .ok (n, flags.skip (rest.dropWhile isBlank)) else .error .badCount

/-- After an opening brace: one count, or a least and perhaps a greatest one. -/
def counts (flags : Flags) (cs : List Char) : Except Fault (Nat × Option Nat × List Char) := do
  let (least, rest) ← count flags (flags.skip cs)
  match rest with
  | '\x7d' :: rest => pure (least, some least, rest)
  | ',' :: rest =>
    match flags.skip rest with
    | '\x7d' :: rest => pure (least, none, rest)
    | rest => do
      let (most, rest) ← count flags rest
      match rest with
      | '\x7d' :: rest =>
        if least ≤ most then pure (least, some most, rest) else throw .badCount
      | _ => throw .badCount
  | _ => throw .badCount

/-- A mark after a repetition makes it take as little as it can, which changes no match. -/
def skipLazy : List Char → List Char
  | '?' :: rest => rest
  | cs => cs

def finish (s : State) : Except Fault Piece :=
  match s.outer with
  | _ :: _ => .error .unclosedGroup
  | [] => .ok s.level.close

def read : Nat → State → List Char → Except Fault Piece
  | 0, _, _ => .error .tooDeep
  | fuel + 1, s, cs =>
    match s.flags.skip cs with
    | [] => s.finish
    | '(' :: rest => do
      let (s, rest) ← s.openGroup rest
      read fuel s rest
    | ')' :: rest => do read fuel (← s.closeGroup) rest
    | '|' :: rest => read fuel { s with level := s.level.branch } rest
    | '[' :: rest => do
      let (b, rest) ← Bracket.opened s.flags rest
      let (a, depth, rest) ← Bracket.read s.flags (rest.length + 1) [] b rest
      read fuel (s.add ⟨.one a, depth, true⟩) rest
    | '?' :: rest => do read fuel (← s.repeatLast 0 (some 1)) (skipLazy rest)
    | '*' :: rest => do read fuel (← s.repeatLast 0 none) (skipLazy rest)
    | '+' :: rest => do read fuel (← s.repeatLast 1 none) (skipLazy rest)
    | '\x7b' :: rest => do
      let (least, most, rest) ← counts s.flags rest
      read fuel (← s.repeatLast least most) (skipLazy (s.flags.skip rest))
    | '\\' :: rest => do
      let (atom, rest) ← Atom.escape s.flags rest
      read fuel (← s.addAtom atom) rest
    | '.' :: rest => do
      let a ← checkedClass s.flags (anyChar s.flags)
      read fuel (s.add (.leaf (.one a))) rest
    | '^' :: rest =>
      let condition := if s.flags.multiLine then Look.lineStart s.flags.crlf else .textStart
      read fuel (s.add (.leaf (.look condition))) rest
    | '$' :: rest =>
      let condition := if s.flags.multiLine then Look.lineEnd s.flags.crlf else .textEnd
      read fuel (s.add (.leaf (.look condition))) rest
    | c :: rest => do read fuel (← s.addAtom (.char c)) rest

end State

/-- What a text writes, however deep it nests. -/
def parse (text : List Char) : Except Fault Piece :=
  State.read (text.length + 1) ⟨{}, [], 0, .start {} none, []⟩ text

/-- A pattern must keep to the limits of nesting and size. -/
def Piece.limited (piece : Piece) : Except Fault Pattern :=
  if 250 < piece.depth then .error .tooDeep
  else if !piece.pattern.plan.fits then .error .tooLarge
  else .ok piece.pattern

/-- The pattern that a text writes. -/
def read (text : List Char) : Except Fault Pattern := do (← parse text).limited

end Rulebook.Pattern
