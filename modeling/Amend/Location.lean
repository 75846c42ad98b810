/-
Amend.Location — where a block's search text stands in a file.

The lines around the hint are searched first, for the text as it stands;
then the whole file is, and last the whole file with white space relaxed.
The first hit is taken.

  §1 Locations.
  §2 The lines around a hint.
  §3 Locating.
-/
import Amend.Matching
import Amend.Text.Lines

namespace Amend

/-! ## §1 Locations -/

/-- A place found: its span, the line it starts on, how it was matched, and
whether it was found around the hint. -/
structure Location where
  span : Span
  line : Nat
  strategy : Strategy
  nearHint : Bool
  deriving DecidableEq, Repr

/-- How many lines on each side of a hint are searched first, unless
settings say otherwise. -/
def defaultWindow : Int := 30

/-! ## §2 The lines around a hint -/

/-- The first line searched around a hint, counted from zero. -/
def windowStart (hint window : Int) : Nat := (hint - 1 - window).toNat

/-- The line before which the search around a hint ends. -/
def windowStop (lineCount : Nat) (hint window : Int) : Nat :=
  (min (lineCount : Int) (hint - 1 + window)).toNat

/-- The offset of the text in the lines around a hint. -/
def findNear (content search : Text) (hint window : Int) : Option Nat :=
  let ls := Text.lines content
  let start := windowStart hint window
  let stop := windowStop ls.length hint window
  if stop ≤ start then none
  else
    let before := Text.closedLength (ls.take start)
    (Text.find? (Text.unlines ((ls.take stop).drop start)) search).map (before + ·)

/-! ## §3 Locating -/

/-- The location of an occurrence that starts at an offset. -/
def Location.exact (content search : Text) (nearHint : Bool) (offset : Nat) : Location :=
  ⟨⟨offset, offset + search.length⟩, Text.lineAt content offset, .exact, nearHint⟩

/-- Looks for the text in the whole file, as it stands and then with white
space relaxed. -/
def locateAnywhere (content search : Text) : Option Location :=
  match Text.find? content search with
  | some offset => some (Location.exact content search false offset)
  | none =>
    (Text.first? (Strategy.whitespace.matcher search) content).map fun s =>
      ⟨s, Text.lineAt content s.start, .whitespace, false⟩

/-- Where the search text stands; `hint` counts lines from one, and a hint
below that is none. -/
def locate (content search : Text) (hint : Option Int) (window : Int) : Option Location :=
  if search = [] then none
  else
    match hint with
    | some h =>
      if 0 < h then
        match findNear content search h window with
        | some offset => some (Location.exact content search true offset)
        | none => locateAnywhere content search
      else locateAnywhere content search
    | none => locateAnywhere content search

/-- What locating is recorded as. -/
def locateRecords (search : Text) (hint : Option Int) (window : Int)
    (found : Option Location) : List Record :=
  if search = [] then []
  else
    (match hint with
      | some h =>
        if 0 < h ∧ (found.map Location.nearHint) ≠ some true then
          [⟨.debug, .location, "[Locate] No exact match within ±" ++ Text.ofInt window
            ++ " lines of line " ++ Text.ofInt h⟩]
        else []
      | none => []) ++
    match found with
    | some ⟨s, _, .whitespace, _⟩ =>
      [⟨.debug, .location, "[Locate] Whitespace-tolerant match at offset " ++ Text.ofNat s.start⟩]
    | _ => []

end Amend
