import Rulebook.Pattern.Plan

/-!
# The size of a matcher

A plan is built as an automaton over bytes, once for reading forward and once for reading backward.
Counted repetitions are unfolded. A state takes 32 bytes, each of its transitions 8 bytes when it
holds a list of them, and each branch of a branching state 4 bytes. Neither automaton may take more
than 10 MiB.
-/
namespace Rulebook.Pattern

open Text

structure Size where
  states : Nat
  extra : Nat

namespace Size

def bytes (size : Size) : Nat := size.states * 32 + size.extra

def limit : Nat := 10485760

/-- Building a part, as far as the limit allows. -/
abbrev Build := StateT Size Option

def grow (states extra : Nat) : Build Unit := fun size =>
  let size : Size := ⟨size.states + states, size.extra + extra⟩
  if size.bytes ≤ limit then some ((), size) else none

def state : Build Unit := grow 1 0

def branches (count : Nat) : Build Unit := grow 0 (4 * count)

/-- The same part so many times. -/
def repeatedly (build : Build Unit) : Nat → Build Unit
  | 0 => pure ()
  | n + 1 => do
    build
    repeatedly build n

/-! ### Sets of characters

States are shared within a set. What has been built for it is kept in slots, and a state is found
again unless a later one has taken its slot. -/

/-- Entries by the number of their slot, along its binary digits. -/
inductive Slots (α : Type) where
  | empty
  | node (entry : Option α) (even odd : Slots α)

namespace Slots

variable {α : Type}

def get? : Slots α → Nat → Option α
  | empty, _ => none
  | node entry even odd, i =>
    if i = 0 then entry else if i % 2 = 0 then even.get? (i / 2) else odd.get? (i / 2)

/-- Slots whose numbers have so many digits. -/
def put (a : α) : Nat → Nat → Slots α → Slots α
  | 0, _, _ => node (some a) empty empty
  | digits + 1, i, slots =>
    let (entry, even, odd) := match slots with
      | empty => (none, empty, empty)
      | node entry even odd => (entry, even, odd)
    if i = 0 then node (some a) even odd
    else if i % 2 = 0 then node entry (put a digits (i / 2) even) odd
    else node entry even (put a digits (i / 2) odd)

end Slots

/-- The FNV-1a hash of a list of words. -/
def hash (key : List Nat) : Nat :=
  (key.foldl (fun h word => (h ^^^ word.toUInt64) * 1099511628211)
    (14695981039346656037 : UInt64)).toNat

/-- The size so far, and what leads where: the ranges of bytes and the states behind them that a
state was built for, and its number. -/
structure Shared where
  size : Size
  kept : Slots (List Nat × Nat)

abbrev Sharing := StateT Shared Option

def buildNew (slot extra : Nat) (key : List Nat) : Sharing Nat := fun work => do
  let number := work.size.states
  let ((), size) ← grow 1 extra work.size
  some (number, ⟨size, work.kept.put (key, number) 14 slot⟩)

/-- The state for a key, where so many slots are kept. -/
def buildShared (slots extra : Nat) (key : List Nat) : Sharing Nat := fun work =>
  let slot := hash key % slots
  match work.kept.get? slot with
  | some (other, number) =>
    if other = key then some (number, work) else buildNew slot extra key work
  | none => buildNew slot extra key work

/-- Sequences that follow each other and begin with the same range, each group by what follows. -/
def grouped : List Utf8.Sequence → List ((Nat × Nat) × List Utf8.Sequence)
  | [] => []
  | [] :: rest => grouped rest
  | (range :: tail) :: rest =>
    match grouped rest with
    | [] => [(range, [tail])]
    | (next, tails) :: groups =>
      if range = next then (range, tail :: tails) :: groups
      else (range, [tail]) :: (next, tails) :: groups

/-- A state for what is left of some sequences, at most so many ranges each. -/
def forwardState (target : Nat) : Nat → List Utf8.Sequence → Sharing Nat
  | 0, _ => pure target
  | length + 1, sequences =>
    match grouped sequences with
    | [] => pure target
    | groups => do
      let transitions ← groups.mapM fun (range, tails) => do
        pure [range.1, range.2, ← forwardState target length tails]
      buildShared 10000 (8 * groups.length) transitions.flatten

def forwardSet (sequences : List Utf8.Sequence) : Build Unit := fun size => do
  let target := size.states
  let ((), size) ← state size
  let (_, work) ← forwardState target 4 sequences ⟨size, .empty⟩
  some ((), work.size)

/-- A chain of states from the last range to the first one, which leads to the target. -/
def backwardChain (target : Nat) (sequence : Utf8.Sequence) : Sharing Unit := fun work => do
  let (_, work) ← sequence.foldlM
    (fun number range => buildShared 1000 0 [number, range.1, range.2]) target work
  let ((), size) ← branches 1 work.size
  some ((), { work with size })

def backwardSet (sequences : List Utf8.Sequence) : Build Unit := fun size => do
  let target := size.states + 1
  let ((), size) ← grow 2 0 size
  let (_, work) ← sequences.forM (backwardChain target) ⟨size, .empty⟩
  some ((), work.size)

/-- A set within ASCII has one state with a transition for each of its ranges. -/
def ofSet (backward : Bool) (set : Ranges) : Build Unit :=
  if set.all fun range => range.2 < 0x80 then grow 2 (8 * set.length)
  else if backward then backwardSet (Utf8.ofRanges set)
  else forwardSet (Utf8.ofRanges set)

/-! ### Choices among texts -/

/-- The words between empty ones. -/
def segments : List (List Nat) → List (List (List Nat))
  | [] => [[]]
  | [] :: rest => [] :: segments rest
  | word :: rest =>
    match segments rest with
    | [] => [[word]]
    | segment :: others => (word :: segment) :: others

/-- The tails of the words of a segment, for each of the bytes that they begin with. -/
def tailsByFirst (segment : List (List Nat)) : List (List (List Nat)) :=
  (segment.filterMap List.head?).eraseDups.map fun byte =>
    segment.filterMap fun word =>
      match word with
      | first :: tail => if first = byte then some tail else none
      | [] => none

/-- A state of a tree of words, at most so long, as states and extra bytes. An empty word ends the
search at its place, so words behind it begin a list of transitions of their own. -/
def treeNode : Nat → List (List Nat) → Nat × Nat
  | 0, _ => (0, 0)
  | length + 1, words =>
    if words.all List.isEmpty then (0, 0)
    else
      let ends := (words.dropWhile List.isEmpty).count [] + if words.head? = some [] then 1 else 0
      let lists := (segments words).filter (!·.isEmpty) |>.map tailsByFirst
      let (states, extra) := lists.flatten.foldl (fun sum tails =>
        let (states, extra) := treeNode length tails
        (sum.1 + states, sum.2 + extra)) (0, 0)
      let transitions := lists.foldl (fun sum tails =>
        if tails.length = 1 then sum else sum + tails.length) 0
      (states + lists.length + 1, extra + 8 * transitions + 4 * (lists.length + ends))

def ofWords (backward : Bool) (words : List (List Nat)) : Build Unit :=
  let words := if backward then words.map List.reverse else words
  let (states, extra) := treeNode ((words.map List.length).foldl max 0 + 1) words
  grow (states + 1) extra

/-! ### Parts of automata -/

/-- A part of an automaton, and whether it ends in a branching state, to which all that follows is a
branch more. -/
structure Part where
  build : Build Unit
  branching : Bool

namespace Part

def ofStates (count : Nat) : Part := ⟨grow count 0, false⟩

/-- The part and the way from its end to the next state. -/
def leading (part : Part) : Build Unit := do
  part.build
  branches (if part.branching then 1 else 0)

def followedBy (first second : Part) : Part :=
  ⟨do first.leading; second.build, second.branching⟩

def captured (part : Part) : Part := ⟨do state; part.leading; state, false⟩

def exactly (part : Part) : Nat → Part
  | 0 => ofStates 1
  | n + 1 => ⟨do repeatedly part.leading n; part.build, part.branching⟩

/-- The part or nothing, without the state behind it. -/
def orNothing (part : Part) : Build Unit := do
  state
  part.leading
  branches 2

/-- Between two counts of times. -/
def bounded (part : Part) (least most : Nat) : Part :=
  ⟨do (part.exactly least).leading; state; repeatedly part.orNothing (most - least), false⟩

/-- At least so many times; `taking` if the part takes at least one byte each time. -/
def unbounded (part : Part) (taking : Bool) : Nat → Part
  | 0 =>
    if taking then ⟨do state; part.leading; branches 1, true⟩
    else ⟨do part.leading; grow 3 0; branches 4, false⟩
  | least + 1 => ⟨do repeatedly part.leading (least + 1); state; branches 1, true⟩

def repeated (part : Part) (taking : Bool) (least : Nat) : Option Nat → Part
  | none => part.unbounded taking least
  | some most =>
    if least = 0 ∧ most = 1 then ⟨do part.orNothing; state, false⟩
    else if least = most then part.exactly least
    else part.bounded least most

/-- Two branches come before the states that hold the choice, the others behind them. -/
def choice : List Part → Part
  | [] => ofStates 1
  | [part] => part
  | first :: second :: rest =>
    ⟨do
      first.leading
      second.leading
      grow 2 0
      branches 2
      rest.forM fun part => do
        part.leading
        branches 1, false⟩

end Part

/-- The parts for the branches of a plan. -/
def parts (backward : Bool) : Plan → List Part
  | .nothing => [.ofStates 1]
  | .bytes form => [.ofStates form.length]
  | .chars set => [⟨ofSet backward set, false⟩]
  | .look _ => [.ofStates 1]
  | .capture _ p =>
    let part := whole backward p (parts backward p)
    [if backward then part else part.captured]
  | .seq p q =>
    let first := whole backward p (parts backward p)
    let second := whole backward q (parts backward q)
    [if backward then second.followedBy first else first.followedBy second]
  | .either p q => parts backward p ++ parts backward q
  | .repeated p least most =>
    let taking := p.fewest.any (0 < ·)
    [(whole backward p (parts backward p)).repeated taking least most]
where
  /-- Branches that are all texts become a tree. -/
  whole (backward : Bool) (p : Plan) (parts : List Part) : Part :=
    match p with
    | .either _ _ =>
      match p.branches.mapM Plan.bytes? with
      | some words => ⟨ofWords backward words, false⟩
      | none => .choice parts
    | _ => .choice parts

def ofPlan (backward : Bool) (p : Plan) : Part := parts.whole backward p (parts backward p)

end Size

namespace Plan

/-- Whether every match begins at the start of the text. -/
def fromStart : Plan → Bool
  | look condition => condition = .textStart
  | capture _ p => p.fromStart
  | seq p q => p.fromStart || (p.most = some 0 && q.fromStart)
  | either p q => p.fromStart && q.fromStart
  | repeated p least _ => 0 < least && p.fromStart
  | _ => false

/-- Whether every match ends at the end of the text. -/
def toEnd : Plan → Bool
  | look condition => condition = .textEnd
  | capture _ p => p.toEnd
  | seq p q => q.toEnd || (q.most = some 0 && p.toEnd)
  | either p q => p.toEnd && q.toEnd
  | repeated p least _ => 0 < least && p.toEnd
  | _ => false

/-- The automaton skips text before a match, unless all matches are at its end of the text. -/
def automaton (backward : Bool) (p : Plan) : Size.Build Unit := do
  let anchored := if backward then p.toEnd else p.fromStart
  Size.grow (if anchored then 1 else 3) (if anchored then 0 else 16)
  let part := Size.ofPlan backward p
  (if backward then part else part.captured).leading
  Size.state

/-- A bound on the bytes of either automaton: that of one without shared states. -/
def atMost : Plan → Nat
  | nothing => 100
  | bytes form => 40 * form.length + 100
  | chars set => 200 * ((Utf8.ofRanges set).length + 1)
  | look _ => 100
  | capture _ p => p.atMost + 100
  | seq p q => p.atMost + q.atMost + 100
  | either p q => p.atMost + q.atMost + 100
  | repeated p least most => (p.atMost + 100) * (most.getD least + 1) + 100

/-- Whether both automata keep to the limit. Most patterns are far from it, which the bound tells
without building them. -/
def fits (p : Plan) : Bool :=
  p.atMost + 1000 ≤ Size.limit ||
    ((p.automaton false ⟨0, 0⟩).isSome && (p.automaton true ⟨0, 0⟩).isSome)

end Plan
end Rulebook.Pattern
