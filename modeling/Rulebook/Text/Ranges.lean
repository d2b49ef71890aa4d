import Rulebook.Text.Fold

/-!
# Sets of characters

A set of characters is a list of ranges of code points, ends included, in ascending order and with
gaps between them. The halves of pairs, from `0xd800` to `0xdfff`, are no characters and lie in no
set.
-/
namespace Rulebook.Text

abbrev Ranges := List (Nat × Nat)

namespace Ranges

/-- The characters from one code point to another. -/
def between (first last : Nat) : Ranges :=
  [(first, min last 0xd7ff), (max first 0xe000, min last 0x10ffff)].filter fun range =>
    range.1 ≤ range.2

/-- One more range, joined with all that it touches. -/
def insert (range : Nat × Nat) : Ranges → Ranges
  | [] => [range]
  | next :: rest =>
    if range.2 + 1 < next.1 then range :: next :: rest
    else if next.2 + 1 < range.1 then next :: insert range rest
    else insert (min range.1 next.1, max range.2 next.2) rest

def union (a b : Ranges) : Ranges := a.foldl (fun held range => insert range held) b

/-- What the ranges leave out, from a code point on. -/
def gapsFrom : Nat → Ranges → Ranges
  | start, [] => between start 0x10ffff
  | start, range :: rest =>
    (if start < range.1 then between start (range.1 - 1) else []) ++ gapsFrom (range.2 + 1) rest

def complement (a : Ranges) : Ranges := gapsFrom 0 a

/-- What two ranges share. -/
def common (a b : Nat × Nat) : Option (Nat × Nat) :=
  if max a.1 b.1 ≤ min a.2 b.2 then some (max a.1 b.1, min a.2 b.2) else none

def inter (a b : Ranges) : Ranges := a.flatMap fun range => b.filterMap (common range)

def minus (a b : Ranges) : Ranges := inter a (complement b)

def xor (a b : Ranges) : Ranges := union (minus a b) (minus b a)

end Ranges

namespace FoldRun

/-- Every `step`-th code point of a range, one by one. -/
def steps (step first : Nat) : Nat → Ranges
  | 0 => []
  | count + 1 => (first, first) :: steps step (first + step) count

/-- The code points of the run that lie in a range. -/
def within (run : FoldRun) (range : Nat × Nat) : Ranges :=
  match Ranges.common (run.first, run.last) range with
  | none => []
  | some (first, last) =>
    if run.step = 1 then [(first, last)]
    else
      let start := first + (run.step - (first - run.first) % run.step) % run.step
      steps run.step start ((last + run.step - start) / run.step)

def shiftBy (shift : Int) (range : Nat × Nat) : Nat × Nat :=
  (((range.1 : Int) + shift).toNat, ((range.2 : Int) + shift).toNat)

/-- The folded forms of the members of a set. -/
def images (run : FoldRun) (a : Ranges) : Ranges :=
  (a.flatMap run.within).map (shiftBy run.shift)

/-- The code points that fold into a set. -/
def sources (run : FoldRun) (a : Ranges) : Ranges :=
  a.flatMap fun range => run.within (shiftBy (-run.shift) range)

end FoldRun

namespace Ranges

/-- The members of a set and all that differs from one of them in case alone. -/
def caseClosed (a : Ranges) : Ranges :=
  let folded := union (foldRuns.flatMap fun run => run.images a) a
  union (foldRuns.flatMap fun run => run.sources folded) folded

/-- The same for the letters of ASCII alone. -/
def asciiCaseClosed (a : Ranges) : Ranges :=
  let capitals : FoldRun := ⟨'A'.toNat, 'Z'.toNat, 1, 32⟩
  union (capitals.images a ++ capitals.sources a) a

end Ranges
end Rulebook.Text
