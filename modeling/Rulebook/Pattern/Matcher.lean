import Rulebook.Pattern

/-!
# Matching

From a set of start positions a pattern leads to the set of positions where its matches end. Sets
are lists without repetition, so a repetition without bound settles after as many rounds as the
text has positions.
-/
namespace Rulebook.Pattern

/-- The members of the second list that the first lacks, appended to it. -/
def join (seen more : List Nat) : List Nat :=
  more.foldl (fun seen i => if seen.contains i then seen else seen ++ [i]) seen

/-- Whether two sets have the same members. -/
def sameMembers (a b : List Nat) : Bool := a.length = b.length && a.all b.contains

/-- Exactly so many rounds. When a round leaves the set as it is, so do all that follow. -/
def rounds (step : List Nat → List Nat) : Nat → List Nat → List Nat
  | 0, starts => starts
  | n + 1, starts =>
    let next := step starts
    if sameMembers starts next then starts else rounds step n next

/-- At most so many rounds; only positions that are new start the next one. -/
def upTo (step : List Nat → List Nat) : Nat → List Nat → List Nat → List Nat
  | 0, seen, _ => seen
  | n + 1, seen, fresh =>
    match (step fresh).filter fun i => !seen.contains i with
    | [] => seen
    | more => upTo step n (seen ++ more) more

def ends (text : Array Char) : Pattern → List Nat → List Nat
  | nothing, starts => starts
  | one cls, starts => starts.filterMap fun i =>
    match text[i]? with
    | some c => if cls.has c then some (i + 1) else none
    | none => none
  | look condition, starts => starts.filter fun i => condition.holds text i
  | seq p q, starts => ends text q (ends text p starts)
  | either p q, starts => join (ends text p starts) (ends text q starts)
  | repeated p least most, starts =>
    let first := rounds (ends text p) least starts
    let more := match most with
      | none => text.size + 1
      | some n => n - least
    upTo (ends text p) more first first
  | group _ p, starts => ends text p starts

/-- Whether some stretch of the text matches. -/
def occursIn (p : Pattern) (text : String) : Bool :=
  let text := text.toList.toArray
  !(ends text p (List.range (text.size + 1))).isEmpty

end Rulebook.Pattern
