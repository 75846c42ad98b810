/-
Amend.Difference.Matching — the stretches two sequences of lines have in
common.

The longest common stretch is found first, the earliest of several of that
length; then the parts before it and after it are matched in the same way.
In a long second sequence a line that occurs very often does not start a
stretch, though it may prolong one.

  §1 Stretches and candidates.
  §2 The longest stretch of two ranges.
  §3 All stretches.
-/
import Amend.Text.Symbol

namespace Amend.Difference

/-! ## §1 Stretches -/

/-- `length` lines that are the same in both sequences, from the line `left`
of the first and the line `right` of the second on. -/
structure Stretch where
  left : Nat
  right : Nat
  length : Nat
  deriving DecidableEq, Repr

/-- How long the second sequence must be for frequent lines to be left out. -/
def longLength : Nat := 200

/-- Whether a line is too frequent in the second sequence to start a
stretch. -/
def isPopular (right : List Text) (occurrences : Nat) : Bool :=
  longLength ≤ right.length && right.length / 100 + 1 < occurrences

/-- For a line, the places in the second sequence where it may match, in
order. -/
def candidates (right : List Text) (line : Text) : List Nat :=
  let places := (right.zipIdx.filter fun p => p.1 == line).map Prod.snd
  if isPopular right places.length then [] else places

/-- Two sequences of lines, with the candidates of each line of the first. -/
structure Sequences where
  left : Array Text
  right : Array Text
  places : Array (List Nat)

/-- Sets two sequences side by side. -/
def Sequences.of (left right : List Text) : Sequences :=
  ⟨left.toArray, right.toArray, (left.map (candidates right)).toArray⟩

namespace Sequences

/-- Whether a line of the first is the same as a line of the second. -/
def agree (s : Sequences) (i j : Nat) : Bool :=
  match s.left[i]?, s.right[j]? with
  | some a, some b => a == b
  | _, _ => false

/-- A range of lines of each sequence, the ends left out. -/
structure Window where
  leftFrom : Nat
  leftTo : Nat
  rightFrom : Nat
  rightTo : Nat
  deriving Repr

/-! ## §2 The longest stretch -/

/-- For a line of the first sequence, how long the stretches are that end at
it, by the place in the second where they end; `before` says the same for
the line before. -/
def endings (before : List (Nat × Nat)) (places : List Nat) : List (Nat × Nat) :=
  places.map fun j =>
    (j, ((before.find? fun e => e.1 + 1 == j).map Prod.snd).getD 0 + 1)

/-- The longer of a stretch and those that end at the line `i`; of equal ones
the stretch, then the first. -/
def longer (i : Nat) (best : Stretch) (ends : List (Nat × Nat)) : Stretch :=
  ends.foldl (fun best e =>
    if best.length < e.2 then ⟨i + 1 - e.2, e.1 + 1 - e.2, e.2⟩ else best) best

/-- The longest stretch that starts with a candidate. -/
def longestCandidate (s : Sequences) (w : Window) : Stretch :=
  let step (state : Stretch × List (Nat × Nat)) (i : Nat) : Stretch × List (Nat × Nat) :=
    let places := (s.places[i]?.getD []).filter fun j => w.rightFrom ≤ j && j < w.rightTo
    let ends := endings state.2 places
    (longer i state.1 ends, ends)
  ((List.range' w.leftFrom (w.leftTo - w.leftFrom)).foldl step
    (⟨w.leftFrom, w.rightFrom, 0⟩, [])).1

/-- Prolongs a stretch to the front as far as the lines agree. -/
def prolongFront (s : Sequences) (w : Window) : (fuel : Nat) → Stretch → Stretch
  | 0, x => x
  | fuel + 1, x =>
    if w.leftFrom < x.left && w.rightFrom < x.right && s.agree (x.left - 1) (x.right - 1) then
      prolongFront s w fuel ⟨x.left - 1, x.right - 1, x.length + 1⟩
    else x

/-- Prolongs a stretch to the back as far as the lines agree. -/
def prolongBack (s : Sequences) (w : Window) : (fuel : Nat) → Stretch → Stretch
  | 0, x => x
  | fuel + 1, x =>
    if x.left + x.length < w.leftTo && x.right + x.length < w.rightTo &&
        s.agree (x.left + x.length) (x.right + x.length) then
      prolongBack s w fuel { x with length := x.length + 1 }
    else x

/-- The longest stretch of two ranges, prolonged at both ends; its length is
zero if the ranges have none. -/
def longest (s : Sequences) (w : Window) : Stretch :=
  let fuel := w.leftTo - w.leftFrom
  prolongBack s w fuel (prolongFront s w fuel (longestCandidate s w))

/-! ## §3 All stretches -/

/-- The stretches of two ranges in order. `fuel` bounds the lines of the
first. -/
def stretchesIn (s : Sequences) : (fuel : Nat) → Window → List Stretch
  | 0, _ => []
  | fuel + 1, w =>
    let x := s.longest w
    if x.length = 0 then []
    else
      let before : Window := ⟨w.leftFrom, x.left, w.rightFrom, x.right⟩
      let after : Window := ⟨x.left + x.length, w.leftTo, x.right + x.length, w.rightTo⟩
      (if w.leftFrom < x.left ∧ w.rightFrom < x.right then stretchesIn s fuel before else []) ++
        x :: (if x.left + x.length < w.leftTo ∧ x.right + x.length < w.rightTo
          then stretchesIn s fuel after else [])

end Sequences

/-- Joins stretches that follow each other without a gap. -/
def joinAdjacent : List Stretch → List Stretch
  | [] => []
  | x :: xs =>
    match joinAdjacent xs with
    | y :: ys =>
      if x.left + x.length = y.left ∧ x.right + x.length = y.right then
        ⟨x.left, x.right, x.length + y.length⟩ :: ys
      else x :: y :: ys
    | [] => [x]

/-- The common stretches of two sequences of lines, in order. -/
def stretches (left right : List Text) : List Stretch :=
  let s := Sequences.of left right
  joinAdjacent (s.stretchesIn (left.length + 1) ⟨0, left.length, 0, right.length⟩)

end Amend.Difference
