/-
Amend.Excerpt — numbered lines of a text, to show what an edit did.

Each row is a line's number, a tab and the line. The bounds of an excerpt
may be any integers; one below zero counts from the back, as everywhere.
-/
import Amend.Text.Lines
import Amend.Text.Search

namespace Amend.Excerpt

/-- The lines, numbered from `first` on. -/
def numbered (first : Nat) (ls : List Text) : Text :=
  Text.unlines (ls.mapIdx fun i l => Text.ofNat (first + i) ++ "\t" ++ l)

/-- The part of the lines that starts at `start`, with their numbers. -/
def rows (ls : List Text) (start : Nat) (stop : Int) : Text :=
  numbered (start + 1) (Text.part ls start stop)

/-- The lines around the replacement `new` that starts at `offset`, with
`margin` lines on either side. Without an offset the first occurrence of
`new` is shown; if there is none, the start of the text is. -/
def aroundEdit (content new : Text) (margin : Int) (offset : Option Int) : Text :=
  let ls := Text.lines content
  let fallback := numbered 1 (Text.part ls 0 (margin * 2))
  let place : Option Int :=
    match offset with
    | some i => if i = -1 ∨ (content.length : Int) < i then none else some i
    | none => (Text.find? content new).map Int.ofNat
  match place with
  | none => fallback
  | some i =>
    let before : Int := (Text.lineOf content i : Int) - 1
    let start := (before - margin).toNat
    rows ls start (min (ls.length : Int) (before + (Text.lines new).length + margin))

/-- The lines from `before` lines above a line to `after` lines below it. -/
def aroundLine (content : Text) (line before after : Int) : Text :=
  let ls := Text.lines content
  rows ls (line - 1 - before).toNat (min (ls.length : Int) (line + after))

/-- The first `most` lines, and how many more there are. -/
def preview (content : Text) (most : Int) : Text :=
  let ls := Text.lines content
  let shown := numbered 1 (Text.part ls 0 most)
  if most < (ls.length : Int) then
    shown ++ "\n... (" ++ Text.ofInt (ls.length - most) ++ " more lines)"
  else shown

end Amend.Excerpt
