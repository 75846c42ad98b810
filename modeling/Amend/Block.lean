/-
Amend.Block — search/replace blocks and the requests that hold them.

A request is text in which blocks stand between prose. A block is a SEARCH
line, optionally a line that names the place to look and a divider, the
lines to find, a separator, the lines to put in their place, and a REPLACE
line. Marker lines may have white space around them. Either every block of
a request is read or none is.

  §1 Blocks and marker lines.
  §2 Reading a request.
  §3 Writing a block.
-/
import Amend.Fault
import Amend.Journal
import Amend.LineEnding
import Amend.Text.Lines

namespace Amend

/-! ## §1 Blocks -/

/-- One block: what to find, what to put there, the block as it was written,
and the line, counted from one, near which to look first. A hint below one
names no line. -/
structure Block where
  search : Text
  replacement : Text
  source : Text
  hint : Option Int
  deriving DecidableEq, Repr

namespace Block

/-- The hint, unless it is zero, which says nothing. -/
def statedHint (b : Block) : Option Int := b.hint.filter (· ≠ 0)

/-- Whether the block only takes text away. -/
def isDeletion (b : Block) : Bool := b.replacement.isEmpty

/-- The start of the search text, for messages. -/
def preview (b : Block) : Text :=
  if 80 < b.search.length then b.search.take 80 ++ "..." else b.search

end Block

/-- The lines that give a request its form. -/
inductive Marker where
  | search
  | divider
  | separator
  | replace
  deriving DecidableEq, Repr

/-- The text of a marker line. -/
def Marker.text : Marker → Text
  | search => "<<<<<<< SEARCH"
  | divider => "-------"
  | separator => "======="
  | replace => ">>>>>>> REPLACE"

/-- Whether a line is a marker, white space around it apart. -/
def Marker.on (m : Marker) (line : Text) : Bool := Text.trim line == m.text

/-- What comes before the number on a hint line. -/
def hintLabel : Text := ":start_line:"

/-- The digits of a hint line; none if the line is not one. -/
def hintDigits? (line : Text) : Option (List Nat) :=
  let line := Text.trim line
  if hintLabel.isPrefixOf line then
    match (line.drop hintLabel.length).mapM Symbol.digit? with
    | some (d :: ds) => some (d :: ds)
    | _ => none
  else none

/-! ## §2 Reading a request -/

/-- Why a request cannot be read. Lines count from one and name the SEARCH
line of the block at fault. -/
inductive BlockError where
  | noSeparator (line : Nat)
  | noReplace (line : Nat)
  | emptySearch (line : Nat)
  | noBlocks
  | longHint (digits : Nat)
  deriving DecidableEq, Repr

/-- The lines before the first marker, and the lines after it. -/
def cutAt (m : Marker) : List Text → Option (List Text × List Text)
  | [] => none
  | l :: ls => if m.on l then some ([], ls) else (cutAt m ls).map fun (a, b) => (l :: a, b)

theorem cutAt_length {m : Marker} {ls a b : List Text} (h : cutAt m ls = some (a, b)) :
    b.length < ls.length := by
  induction ls generalizing a b with
  | nil => simp [cutAt] at h
  | cons l ls ih =>
    unfold cutAt at h
    split at h
    · simp at h
      obtain ⟨-, rfl⟩ := h
      simp
    · cases hc : cutAt m ls with
      | none => simp [hc] at h
      | some p =>
        obtain ⟨x, y⟩ := p
        simp [hc] at h
        obtain ⟨-, rfl⟩ := h
        have := ih hc
        simp
        omega

/-- The hint on the first line, if that is a hint line, and the lines after
it. The number zero is no hint. -/
def takeHint : List Text → Except BlockError (Option Int × List Text)
  | [] => .ok (none, [])
  | l :: ls =>
    match hintDigits? l with
    | none => .ok (none, l :: ls)
    | some ds =>
      if digitLimit < ds.length then .error (.longHint ds.length)
      else
        let n := Decimal.ofDigits 0 ds
        .ok (if n = 0 then none else some n, ls)

/-- The lines without a divider at their start. -/
def dropDivider : List Text → List Text
  | [] => []
  | l :: ls => if Marker.divider.on l then ls else l :: ls

theorem takeHint_length {ls r : List Text} {h : Option Int} (e : takeHint ls = .ok (h, r)) :
    r.length ≤ ls.length := by
  unfold takeHint at e
  split at e
  · simp at e
    simp [e]
  · split at e
    · simp at e
      simp [← e.2]
    · split at e
      · simp at e
      · simp at e
        simp [← e.2]

theorem dropDivider_length (ls : List Text) : (dropDivider ls).length ≤ ls.length := by
  unfold dropDivider
  split
  · simp
  · split <;> simp

/-- Reads the block after the SEARCH line `first`, which is line `number` of
the request; the lines after the block are left, fewer than there were. -/
def Block.read (number : Nat) (first : Text) (rest : List Text) :
    Except BlockError (Block × { after : List Text // after.length ≤ rest.length }) :=
  match hh : takeHint rest with
  | .error e => .error e
  | .ok (hint, body) =>
    match hs : cutAt .separator (dropDivider body) with
    | none => .error (.noSeparator number)
    | some (search, tail) =>
      match hr : cutAt .replace tail with
      | none => .error (.noReplace number)
      | some (replacement, after) =>
        if Text.unlines search = [] then .error (.emptySearch number)
        else
          .ok (⟨Text.unlines search, Text.unlines replacement,
              Text.unlines (first :: rest.take (rest.length - after.length)), hint⟩,
            ⟨after, by
              have h₁ := takeHint_length hh
              have h₂ := dropDivider_length body
              have h₃ := cutAt_length hs
              have h₄ := cutAt_length hr
              omega⟩)

/-- The blocks in the lines from line `number` on. -/
def blocksFrom (number : Nat) (ls : List Text) : Except BlockError (List Block) :=
  match ls with
  | [] => .ok []
  | l :: rest =>
    if Marker.search.on l then
      match Block.read number l rest with
      | .error e => .error e
      | .ok (b, ⟨after, _⟩) =>
        (blocksFrom (number + 1 + (rest.length - after.length)) after).map (b :: ·)
    else blocksFrom (number + 1) rest
termination_by ls.length

/-- The blocks of a request, in order. -/
def readBlocks (request : Text) : Except BlockError (List Block) :=
  match blocksFrom 1 (Text.lines (LineEnding.normalize request)) with
  | .error e => .error e
  | .ok [] => .error .noBlocks
  | .ok bs => .ok bs

/-- What reading a request is recorded as. -/
def blockRecords (bs : List Block) : List Record :=
  [⟨.debug, .blocks, "[ApplyDiff] Parsed " ++ Text.ofNat bs.length ++ " block(s)"⟩]

/-! ## §3 Writing a block -/

/-- A block's lines: markers, the hint if there is one, a divider, and the
two texts. -/
def Block.write (search replacement : Text) (hint : Option Nat) : List Text :=
  [Marker.search.text] ++
    (match hint with
      | some n => [hintLabel ++ Text.ofNat n]
      | none => []) ++
    [Marker.divider.text] ++ Text.lines search ++ [Marker.separator.text] ++
    Text.lines replacement ++ [Marker.replace.text]

end Amend
