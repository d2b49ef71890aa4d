import Rulebook.Text.Ranges
import Rulebook.Text.Word

/-!
# Patterns

A pattern describes stretches of a text. Which stretches is given by a relation between two
positions of the text; greed does not enter, since only the existence of a match is asked for.
-/
namespace Rulebook

open Text

/-- Sets of characters, as patterns write them. -/
inductive CharClass where
  | none
  | range (first last : Char)
  | digit
  | space
  | word
  | not (a : CharClass)
  | or (a b : CharClass)
  | and (a b : CharClass)
  | minus (a b : CharClass)
  | xor (a b : CharClass)
  /-- Case is ignored; outside Unicode mode that concerns ASCII letters alone. -/
  | caseless (unicode : Bool) (a : CharClass)

namespace CharClass

def single (c : Char) : CharClass := range c c

def has : CharClass → Char → Bool
  | none, _ => false
  | range first last, c => first ≤ c && c ≤ last
  | digit, c => isDigit c
  | space, c => isBlank c
  | word, c => isWord c
  | not a, c => !a.has c
  | or a b, c => a.has c || b.has c
  | and a b, c => a.has c && b.has c
  | minus a b, c => a.has c && !b.has c
  | xor a b, c => a.has c != b.has c
  | caseless unicode a, c =>
    a.has c || (caseVariants c.toNat).any fun n =>
      (unicode || (n < 128 && c.toNat < 128)) && a.has (Char.ofNat n)

/-- The members of the class. -/
def ranges : CharClass → Ranges
  | none => []
  | range first last => Ranges.between first.toNat last.toNat
  | digit => digitRanges
  | space => blankRanges
  | word => wordRanges
  | not a => a.ranges.complement
  | or a b => a.ranges.union b.ranges
  | and a b => a.ranges.inter b.ranges
  | minus a b => a.ranges.minus b.ranges
  | xor a b => a.ranges.xor b.ranges
  | caseless unicode a => if unicode then a.ranges.caseClosed else a.ranges.asciiCaseClosed

end CharClass

/-- Conditions on a position that take no text. -/
inductive Look where
  | textStart
  | textEnd
  | lineStart (crlf : Bool)
  | lineEnd (crlf : Bool)
  | wordEdge (unicode : Bool)
  | noWordEdge (unicode : Bool)
  | wordStart (unicode : Bool)
  | wordEnd (unicode : Bool)
  | noWordBefore (unicode : Bool)
  | noWordAfter (unicode : Bool)
deriving DecidableEq

namespace Look

def wordAt (unicode : Bool) (c : Option Char) : Bool :=
  match c with
  | some c => isWord c && (unicode || c.toNat < 128)
  | none => false

def before (text : Array Char) (i : Nat) : Option Char :=
  if i = 0 then none else text[i - 1]?

def holds (text : Array Char) (i : Nat) : Look → Bool
  | textStart => i = 0
  | textEnd => i = text.size
  | lineStart crlf =>
    i = 0 || before text i = some '\n' ||
      (crlf && before text i = some '\r' && text[i]? ≠ some '\n')
  | lineEnd crlf =>
    i = text.size || (!crlf && text[i]? = some '\n') || (crlf && text[i]? = some '\r') ||
      (crlf && text[i]? = some '\n' && before text i ≠ some '\r')
  | wordEdge u => wordAt u (before text i) != wordAt u text[i]?
  | noWordEdge u => wordAt u (before text i) == wordAt u text[i]?
  | wordStart u => !wordAt u (before text i) && wordAt u text[i]?
  | wordEnd u => wordAt u (before text i) && !wordAt u text[i]?
  | noWordBefore u => !wordAt u (before text i)
  | noWordAfter u => !wordAt u text[i]?

end Look

inductive Pattern where
  | nothing
  | one (cls : CharClass)
  | look (condition : Look)
  | seq (p q : Pattern)
  | either (p q : Pattern)
  /-- At least `least` times and at most `most` times, without an upper end for `none`. -/
  | repeated (p : Pattern) (least : Nat) (most : Option Nat)
  /-- What stands in parentheses; groups that capture are counted. -/
  | group (number : Option Nat) (p : Pattern)

namespace Pattern

/-- The pattern matches the stretch of the text from the first position to the second. -/
inductive Matches (text : Array Char) : Pattern → Nat → Nat → Prop
  | nothing {i : Nat} : i ≤ text.size → Matches text .nothing i i
  | one {cls : CharClass} {i : Nat} {c : Char} :
    text[i]? = some c → cls.has c = true → Matches text (.one cls) i (i + 1)
  | look {condition : Look} {i : Nat} :
    i ≤ text.size → condition.holds text i = true → Matches text (.look condition) i i
  | seq {p q : Pattern} {i j k : Nat} :
    Matches text p i j → Matches text q j k → Matches text (.seq p q) i k
  | left {p q : Pattern} {i j : Nat} : Matches text p i j → Matches text (.either p q) i j
  | right {p q : Pattern} {i j : Nat} : Matches text q i j → Matches text (.either p q) i j
  | stop {p : Pattern} {most : Option Nat} {i : Nat} :
    i ≤ text.size → Matches text (.repeated p 0 most) i i
  | again {p : Pattern} {least : Nat} {most : Option Nat} {i j k : Nat} :
    most ≠ some 0 → Matches text p i j →
      Matches text (.repeated p (least - 1) (most.map (· - 1))) j k →
      Matches text (.repeated p least most) i k
  | group {number : Option Nat} {p : Pattern} {i j : Nat} :
    Matches text p i j → Matches text (.group number p) i j

/-- Why a text is no pattern. -/
inductive Fault where
  | unclosedGroup
  | unopenedGroup
  | lookAround
  | nothingToRepeat
  | badCount
  | badEscape
  | backReference
  | badClass
  | badRange
  | badGroupName
  | repeatedGroupName
  | badFlags
  /-- A class by a property of characters; none of them is known. -/
  | unknownProperty
  | notText
  | tooDeep
  | tooLarge
deriving DecidableEq

def Fault.message : Fault → String
  | unclosedGroup => "regex parse error: unclosed group"
  | unopenedGroup => "regex parse error: unopened group"
  | lookAround => "regex parse error: look-around is not supported"
  | nothingToRepeat => "regex parse error: repetition operator missing expression"
  | badCount => "regex parse error: invalid repetition count range"
  | badEscape => "regex parse error: unrecognized escape sequence"
  | backReference => "regex parse error: backreferences are not supported"
  | badClass => "regex parse error: unclosed or invalid character class"
  | badRange => "regex parse error: invalid character class range"
  | badGroupName => "regex parse error: invalid capture group name"
  | repeatedGroupName => "regex parse error: duplicate capture group name"
  | badFlags => "regex parse error: invalid flags"
  | unknownProperty => "regex parse error: Unicode property not found"
  | notText => "regex parse error: pattern can match invalid UTF-8"
  | tooDeep => "regex parse error: exceeds the nesting limit"
  | tooLarge => "Compiled regex exceeds size limit"

end Pattern
end Rulebook
