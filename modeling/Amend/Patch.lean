/-
Amend.Patch — applying the blocks of a request to a text.

Every block is located in the text as it was, in the order of the request,
and accepted unless its place overlaps that of a block accepted before. The
accepted blocks are then put in from the last place to the first, so no
replacement moves a place that is still to be replaced.

  §1 What becomes of a block.
  §2 Deciding.
  §3 Splicing.
  §4 Results.
  §5 Records.
-/
import Amend.Block
import Amend.Location

namespace Amend

/-! ## §1 Verdicts -/

/-- What becomes of a block. -/
inductive Verdict where
  /-- It has nothing to find. -/
  | empty
  /-- Its text is nowhere. -/
  | missing
  /-- Its place overlaps that of the block with this index. -/
  | overlaps (place : Location) (other : Nat)
  /-- It is put in at this place. -/
  | accepted (place : Location)
  deriving DecidableEq, Repr

/-- A block accepted: its index in the request, its place, and the text to
put there. -/
structure Placement where
  index : Nat
  place : Location
  replacement : Text
  deriving DecidableEq, Repr

/-! ## §2 Deciding -/

/-- The search text of a block as it is looked for. -/
def Block.sought (b : Block) : Text := LineEnding.normalize b.search

/-- Where a block's search text stands in a text. -/
def Block.locate (content : Text) (window : Int) (b : Block) : Option Location :=
  Amend.locate content b.sought b.hint window

/-- What becomes of a block when others are already accepted. -/
def judge (content : Text) (window : Int) (before : List Placement) (b : Block) : Verdict :=
  if b.sought = [] then .empty
  else
    match b.locate content window with
    | none => .missing
    | some place =>
      match before.find? fun p => place.span.overlaps p.place.span with
      | some p => .overlaps place p.index
      | none => .accepted place

/-- What becomes of each block from index `i` on. -/
def judgeFrom (content : Text) (window : Int) :
    (i : Nat) → (before : List Placement) → List Block → List Verdict
  | _, _, [] => []
  | i, before, b :: bs =>
    let v := judge content window before b
    let before :=
      match v with
      | .accepted place => before ++ [⟨i, place, LineEnding.normalize b.replacement⟩]
      | _ => before
    v :: judgeFrom content window (i + 1) before bs

/-- What becomes of each block of a request. -/
def verdicts (content : Text) (window : Int) (bs : List Block) : List Verdict :=
  judgeFrom content window 0 [] bs

/-- The accepted blocks among blocks and their verdicts from index `i` on. -/
def placementsFrom : (i : Nat) → List (Block × Verdict) → List Placement
  | _, [] => []
  | i, (b, .accepted place) :: r =>
    ⟨i, place, LineEnding.normalize b.replacement⟩ :: placementsFrom (i + 1) r
  | i, _ :: r => placementsFrom (i + 1) r

/-- The accepted blocks of a request, in its order. -/
def placements (content : Text) (window : Int) (bs : List Block) : List Placement :=
  placementsFrom 0 (bs.zip (verdicts content window bs))

/-! ## §3 Splicing -/

/-- The placements by their places, first to last. -/
def inOrder (ps : List Placement) : List Placement :=
  ps.mergeSort fun p q => p.place.span.start ≤ q.place.span.start

/-- The text with the placements put in, the last of the list first. -/
def spliceAll (content : Text) (ps : List Placement) : Text :=
  ps.foldr (fun p text => Text.splice text p.place.span p.replacement) content

/-! ## §4 Results -/

/-- The outcome of one block: where it matched, the line its replacement
starts on afterwards, or why it failed. -/
inductive Outcome where
  | applied (matchedLine resultLine : Nat) (strategy : Strategy)
  | failed (matchedLine : Option Nat) (reason : Text)
  deriving DecidableEq, Repr

/-- Whether the block was put in. -/
def Outcome.isApplied : Outcome → Bool
  | applied .. => true
  | failed .. => false

/-- A text with a request's blocks applied, and what became of each. -/
structure Patched where
  content : Text
  outcomes : List Outcome
  deriving DecidableEq, Repr

namespace Patched

/-- How many blocks were put in. -/
def applied (p : Patched) : Nat := p.outcomes.countP Outcome.isApplied

/-- How many blocks failed. -/
def failed (p : Patched) : Nat := p.outcomes.length - p.applied

/-- Whether any block was put in. -/
def succeeded (p : Patched) : Bool := 0 < p.applied

/-- The index of the first block put in. -/
def firstApplied? (p : Patched) : Option Nat := p.outcomes.findIdx? Outcome.isApplied

end Patched

/-- For placements in order, by how much the text before each has grown. -/
def shifts : (shift : Int) → List Placement → List (Placement × Int)
  | _, [] => []
  | shift, p :: ps =>
    (p, shift) :: shifts (shift + p.replacement.length - (p.place.span.length : Int)) ps

/-- The words that point to a block's hint, if it has one. -/
def hintNote (words : Text) (b : Block) : Text :=
  match b.statedHint with
  | some n => " (" ++ words ++ Text.ofInt n ++ ")"
  | none => []

/-- The outcome of a block with a verdict, given the placements with their
shifts and the text afterwards. -/
def outcome (moved : List (Placement × Int)) (content : Text) (i : Nat) (b : Block) :
    Verdict → Outcome
  | .empty => .failed none "Empty search content"
  | .missing =>
    .failed none ("Could not find search content" ++ hintNote "hinted at line " b ++ ": \"" ++
      b.preview ++ "\"")
  | .overlaps place other =>
    .failed (some place.line) ("Search content overlaps block " ++ Text.ofNat (other + 1))
  | .accepted place =>
    let shift := ((moved.find? fun m => m.1.index = i).map Prod.snd).getD 0
    .applied place.line (Text.lineOf content (place.span.start + shift)) place.strategy

/-- Applies the blocks of a request to a text. -/
def applyBlocks (content : Text) (window : Int) (bs : List Block) : Patched :=
  let vs := verdicts content window bs
  let ordered := inOrder (placements content window bs)
  let after := spliceAll content ordered
  let moved := shifts 0 ordered
  ⟨after, (bs.zip vs).mapIdx fun i (b, v) => outcome moved after i b v⟩

/-! ## §5 Records -/

/-- What the fate of the block with index `i` is recorded as. -/
def verdictRecords (content : Text) (window : Int) (i : Nat) (b : Block) (v : Verdict) :
    List Record :=
  let found := if b.sought = [] then [] else
    locateRecords b.sought b.hint window (b.locate content window)
  let number := Text.ofNat (i + 1)
  found ++
  match v with
  | .empty => []
  | .missing =>
    [⟨.warning, .patching, "[ApplyDiff] Block " ++ number ++ " not found"
      ++ hintNote "hinted at line " b⟩]
  | .overlaps _ other =>
    [⟨.warning, .patching, "[ApplyDiff] Block " ++ number ++ " overlaps block "
      ++ Text.ofNat (other + 1) ++ ", skipping"⟩]
  | .accepted place =>
    (match b.statedHint with
      | some h =>
        if place.nearHint then []
        else
          [⟨.info, .patching, "[ApplyDiff] Block " ++ number ++ " hinted at line " ++ Text.ofInt h
            ++ " but matched at line " ++ Text.ofNat place.line ++ " (outside ±"
            ++ Text.ofInt window ++ " lines)"⟩]
      | none => []) ++
    [⟨.debug, .patching, "[ApplyDiff] Block " ++ number ++ ": "
      ++ (if b.isDeletion then "deletion" else "replacement") ++ " at line "
      ++ Text.ofNat place.line ++ " via " ++ Text.ofString place.strategy.name⟩]

/-- What applying a request is recorded as. -/
def applyRecords (content : Text) (window : Int) (bs : List Block) : List Record :=
  let vs := verdicts content window bs
  ((bs.zip vs).mapIdx fun i (b, v) => verdictRecords content window i b v).flatten ++
  [⟨.debug, .patching, "[ApplyDiff] Applied "
    ++ Text.ofNat (placements content window bs).length ++ "/" ++ Text.ofNat bs.length
    ++ " block(s)"⟩]

end Amend
