/-
Amend.Difference.Unified — differences in unified form.

The common stretches of two texts leave changed regions between them. A
region is shown with three lines around it, and regions whose surroundings
touch are shown as one hunk under one head line.

  §1 Regions.
  §2 Hunks.
  §3 The written form.
-/
import Amend.Difference.Matching
import Amend.Text.Lines

namespace Amend.Difference

/-! ## §1 Regions -/

/-- A range of lines of each text that is the same in both, or that is
replaced as a whole. -/
structure Region where
  same : Bool
  leftFrom : Nat
  leftTo : Nat
  rightFrom : Nat
  rightTo : Nat
  deriving DecidableEq, Repr

/-- The regions from given lines on, up to the ends of both texts. -/
def regionsFrom (leftLength rightLength : Nat) : (i j : Nat) → List Stretch → List Region
  | i, j, [] =>
    if i < leftLength ∨ j < rightLength then [⟨false, i, leftLength, j, rightLength⟩] else []
  | i, j, x :: xs =>
    (if i < x.left ∨ j < x.right then [⟨false, i, x.left, j, x.right⟩] else []) ++
      ⟨true, x.left, x.left + x.length, x.right, x.right + x.length⟩ ::
        regionsFrom leftLength rightLength (x.left + x.length) (x.right + x.length) xs

/-- The regions of two sequences of lines. -/
def regions (left right : List Text) : List Region :=
  regionsFrom left.length right.length 0 0 (stretches left right)

/-! ## §2 Hunks -/

/-- How many lines are shown on each side of a change. -/
def contextLines : Nat := 3

/-- The last lines of a region. -/
def Region.back (r : Region) (n : Nat) : Region :=
  { r with leftFrom := max r.leftFrom (r.leftTo - n), rightFrom := max r.rightFrom (r.rightTo - n) }

/-- The first lines of a region. -/
def Region.front (r : Region) (n : Nat) : Region :=
  { r with leftTo := min r.leftTo (r.leftFrom + n), rightTo := min r.rightTo (r.rightFrom + n) }

/-- Cuts what is the same at the two ends down to the lines shown. -/
def trimEnds (rs : List Region) : List Region :=
  let rs :=
    match rs with
    | r :: rest => (if r.same then r.back contextLines else r) :: rest
    | [] => []
  match rs.getLast? with
  | some r => if r.same then rs.dropLast ++ [r.front contextLines] else rs
  | none => rs

/-- Cuts regions into hunks where more is the same than is shown on both
sides; `acc` is the hunk so far. -/
def hunksFrom (acc : List Region) : List Region → List (List Region)
  | [] => if acc.any fun r => !r.same then [acc] else []
  | r :: rs =>
    if r.same && 2 * contextLines < r.leftTo - r.leftFrom then
      (acc ++ [r.front contextLines]) :: hunksFrom [r.back contextLines] rs
    else hunksFrom (acc ++ [r]) rs

/-- The hunks of two sequences of lines. -/
def hunks (left right : List Text) : List (List Region) := hunksFrom [] (trimEnds (regions left right))

/-! ## §3 The written form -/

/-- A range of lines in a head line: its first line, counted from one, and
its length unless that is one. An empty range names the line before it. -/
def rangeText (start stop : Nat) : Text :=
  let length := stop - start
  if length = 1 then Text.ofNat (start + 1)
  else Text.ofNat (if length = 0 then start else start + 1) ++ "," ++ Text.ofNat length

/-- The lines of a region, each after the mark of its kind. -/
def regionLines (left right : Array Text) (r : Region) : List Text :=
  let cut (ls : Array Text) (start stop : Nat) : List Text := (ls.extract start stop).toList
  let mark (c : Char) (ls : List Text) : List Text := ls.map fun l => .char c :: l
  if r.same then mark ' ' (cut left r.leftFrom r.leftTo)
  else mark '-' (cut left r.leftFrom r.leftTo) ++ mark '+' (cut right r.rightFrom r.rightTo)

/-- The lines of a hunk under its head line. -/
def hunkLines (left right : Array Text) (h : List Region) : List Text :=
  match h.head?, h.getLast? with
  | some a, some b =>
    let head : Text := "@@ -" ++ rangeText a.leftFrom b.leftTo ++ " +" ++
      rangeText a.rightFrom b.rightTo ++ " @@"
    head :: h.flatMap (regionLines left right)
  | _, _ => []

/-- The lines of the unified form, lines of the texts with their ends. -/
def unifiedLines (oldName newName : Text) (left right : List Text) : List Text :=
  match hunks left right with
  | [] => []
  | hs =>
    let l := left.toArray
    let r := right.toArray
    let old : Text := "--- " ++ oldName
    let new : Text := "+++ " ++ newName
    old :: new :: hs.flatMap (hunkLines l r)

/-- A line without the line feeds and carriage returns at its end. -/
def bare (line : Text) : Text := (line.reverse.dropWhile fun s => s = lf || s = cr).reverse

/-- The difference of two texts in unified form, under two names. -/
def unified (oldName newName old new : Text) : Text :=
  Text.unlines ((unifiedLines oldName newName (Text.splitLines old) (Text.splitLines new)).map bare)

end Amend.Difference
