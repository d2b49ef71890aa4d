import Rulebook.Pattern
import Rulebook.Text.Utf8

/-!
# Plans of matchers

A matcher reads bytes. Before it is built, a pattern is brought into a simpler form with the same
matches: characters that follow each other make one stretch of bytes, a choice among characters is
a set of characters, and a choice whose branches start alike has that start once.
-/
namespace Rulebook.Pattern

open Text

/-- Sequences and choices stand in lists: the first part is no sequence, the first branch no
choice. -/
inductive Plan where
  | nothing
  | bytes (form : List Nat)
  | chars (set : Ranges)
  | look (condition : Look)
  | capture (number : Nat) (p : Plan)
  | seq (p q : Plan)
  | either (p q : Plan)
  | repeated (p : Plan) (least : Nat) (most : Option Nat)
deriving DecidableEq

namespace Plan

/-- A set of one character is written out. -/
def ofSet (set : Ranges) : Plan :=
  match set with
  | [(first, last)] => if first = last then bytes (Utf8.encode first) else chars set
  | _ => chars set

/-- One plan after the other. -/
def followedBy : Plan → Plan → Plan
  | nothing, q => q
  | seq p r, q => seq p (followedBy r q)
  | bytes a, bytes b => bytes (a ++ b)
  | bytes a, seq (bytes b) q => seq (bytes (a ++ b)) q
  | p, nothing => p
  | p, q => seq p q

def sequence (parts : List Plan) : Plan := parts.foldr followedBy nothing

def parts : Plan → List Plan
  | seq p q => p :: q.parts
  | p => [p]

def branches : Plan → List Plan
  | either p q => p :: q.branches
  | p => [p]

/-- The fewest bytes that a match takes, if there can be one. -/
def fewest : Plan → Option Nat
  | nothing => some 0
  | bytes form => some form.length
  | chars set => set.head?.map fun range => Utf8.size range.1
  | look _ => some 0
  | capture _ p => p.fewest
  | seq p q => do pure ((← p.fewest) + (← q.fewest))
  | either p q => do pure (min (← p.fewest) (← q.fewest))
  | repeated p least _ => p.fewest.map (· * least)

/-- The most bytes that a match takes, if there is a bound. -/
def most : Plan → Option Nat
  | nothing => some 0
  | bytes form => some form.length
  | chars set => set.getLast?.map fun range => Utf8.size range.2
  | look _ => some 0
  | capture _ p => p.most
  | seq p q => do pure ((← p.most) + (← q.most))
  | either p q => do pure (max (← p.most) (← q.most))
  | repeated p _ upper => do pure ((← p.most) * (← upper))

/-- What takes no text need not be repeated more than once. -/
def times (p : Plan) (least : Nat) (upper : Option Nat) : Plan :=
  let (least, upper) :=
    if p.most = some 0 then (min least 1, some (min (upper.getD 1) 1)) else (least, upper)
  if upper = some 0 then nothing
  else if least = 1 ∧ upper = some 1 then p
  else repeated p least upper

/-- The character that a plan stands for, if it is one character. -/
def char? : Plan → Option Nat
  | bytes form => Utf8.decodeOne? form
  | _ => none

def bytes? : Plan → Option (List Nat)
  | bytes form => some form
  | _ => none

def set? : Plan → Option Ranges
  | chars set => some set
  | _ => none

/-- How many parts all plans begin with in common; only sequences count. -/
def commonParts : List Plan → Nat
  | [] => 0
  | first :: rest =>
    rest.foldl (fun n p =>
      match p with
      | seq _ _ => min n ((first.parts.zip p.parts).takeWhile fun pair => pair.1 = pair.2).length
      | _ => 0)
      (match first with
        | seq _ _ => first.parts.length
        | _ => 0)

/-- A choice among two or more plans. Sharing a start shortens the branches, so their length bounds
the rounds. -/
def choiceWithin : Nat → List Plan → Plan
  | fuel, ps =>
    let ps := ps.flatMap branches
    match ps.mapM char?, ps.mapM set? with
    | some cs, _ => ofSet (Ranges.union (cs.map fun c => (c, c)) [])
    | none, some sets => ofSet (sets.foldr Ranges.union [])
    | none, none =>
      match fuel, commonParts ps with
      | fuel + 1, n + 1 =>
        let rest := choiceWithin fuel (ps.map fun p => sequence (p.parts.drop (n + 1)))
        sequence ((ps.headD nothing).parts.take (n + 1) ++ [rest])
      | _, _ => ps.dropLast.foldr either (ps.getLastD nothing)

def choice : List Plan → Plan
  | [p] => p
  | ps => choiceWithin ((ps.map fun p => p.parts.length).foldl max 0) ps

end Plan

/-- The plans of the branches of a pattern. -/
def plans : Pattern → List Plan
  | nothing => [.nothing]
  | one cls => [.ofSet cls.ranges]
  | look condition => [.look condition]
  | seq p q => [(Plan.choice p.plans).followedBy (Plan.choice q.plans)]
  | either p q => p.plans ++ q.plans
  | repeated p least most => [(Plan.choice p.plans).times least most]
  | group none p => [Plan.choice p.plans]
  | group (some number) p => [.capture number (Plan.choice p.plans)]

def plan (p : Pattern) : Plan := Plan.choice p.plans

end Rulebook.Pattern
