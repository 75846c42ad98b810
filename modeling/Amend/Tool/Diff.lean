/-
Amend.Tool.Diff — the tool that applies a request of blocks to a file.

The request is read as a whole before the file is touched. Blocks that
cannot be put in are reported and the others applied; if none can, the call
fails. The file is written at most once.
-/
import Amend.Excerpt
import Amend.Patch
import Amend.Path
import Amend.Tool.Basic

namespace Amend.DiffTool

/-! ## §1 Arguments -/

/-- A request to apply blocks to a file. -/
structure Request where
  path : Text
  blocks : List Block
  deriving DecidableEq, Repr

/-- Reads a request's arguments. -/
def readRequest (args : List (Value × Value)) : Step Request := do
  let path ← requirePath args "modify"
  let some (.text diff) := Value.field? args "diff" | Step.refuse .noDiff
  if Text.trim diff = [] then Step.refuse .noDiff
  match readBlocks diff with
  | .error e => throw e.failure
  | .ok blocks =>
    Step.journal (blockRecords blocks)
    return ⟨path, blocks⟩

/-! ## §2 Reports -/

/-- Why the block with index `i` failed, for the caller. -/
def blockError (i : Nat) (b : Block) (reason : Text) : Text :=
  "Block " ++ Text.ofNat (i + 1) ++ hintNote "start_line: " b ++ ": " ++ reason

/-- The failed blocks with their reasons. -/
def failures (bs : List Block) (p : Patched) : List Text :=
  ((bs.zip p.outcomes).mapIdx fun i (b, o) =>
    match o with
    | .failed _ reason => [blockError i b reason]
    | .applied .. => []).flatten

/-- The line that tells that the block with index `i` was put in. -/
def successLine (i line : Nat) (strategy : Strategy) : Text :=
  "  ✓ Block " ++ Text.ofNat (i + 1) ++ " at line " ++ Text.ofNat line ++ strategyNote strategy

/-- The lines that tell of the blocks put in. -/
def successes (p : Patched) : List Text :=
  (p.outcomes.mapIdx fun i o =>
    match o with
    | .applied line _ strategy => [successLine i line strategy]
    | .failed .. => []).flatten

/-- The lines that tell of the failed blocks, if there are any. -/
def failureLines : List Text → List Text
  | [] => []
  | failed =>
    let head : Text := "⚠️ " ++ Text.ofNat failed.length ++ " block(s) failed:"
    let advice : Text := "Use read to check the file and re-apply failed blocks."
    [[], head] ++ failed.map (fun t => ("  ✗ " : Text) ++ t) ++ [[], advice]

/-- What a request of one block is told. -/
def notice : Text :=
  "<notice>Multiple related changes can be included as additional SEARCH/REPLACE blocks " ++
    "in a single code_apply_diff call for efficiency.</notice>"

/-- The lines around the first block put in. -/
def contextLines (s : Settings) (content : Text) : Option Nat → List Text
  | none => []
  | some line =>
    let head : Text := "Post-edit context (around line " ++ Text.ofNat line ++ "):"
    [[], head, Excerpt.aroundLine content line s.diffContextBefore s.diffContextAfter]

/-- The most tolerant strategy that was needed. -/
def overallStrategy (p : Patched) : Strategy :=
  if p.outcomes.any fun
      | .applied _ _ s => s = .whitespace
      | .failed .. => false
  then .whitespace else .exact

/-- The line where the first block put in starts afterwards. -/
def firstLine? (p : Patched) : Option Nat :=
  p.outcomes.findSome? fun
    | .applied _ line _ => some line
    | .failed .. => none

/-- What the caller is told of the blocks. -/
def report (w : Workplace) (r : Request) (p : Patched) : Text :=
  let total := r.blocks.length
  let head : Text :=
    "Applied " ++ Text.ofNat p.applied ++ "/" ++ Text.ofNat total ++ " diff block(s) to " ++ r.path
  let last : List Text :=
    if total = 1 ∧ w.settings.singleBlockNotice then [[], notice] else []
  Text.unlines ([head] ++ successes p ++ failureLines (failures r.blocks p) ++
    contextLines w.settings p.content (firstLine? p) ++ last)

/-! ## §3 Applying -/

/-- Applies the blocks to the file at `place`; line endings are those of the
file. -/
def apply (w : Workplace) (r : Request) (place : Text) : Step ToolResult := do
  if !(← Step.ask (.has place)) then Step.refuse (.absent r.path false)
  let raw ← Step.readText place
  Step.checkCancelled
  let content := LineEnding.normalize raw
  let window := w.settings.hintWindow
  Step.journal (applyRecords content window r.blocks)
  let p := applyBlocks content window r.blocks
  if !p.succeeded then Step.refuse (.allFailed r.path (failures r.blocks p))
  let details := Details.patched (overallStrategy p) p.outcomes.length p.applied
  if p.content = content then
    return ⟨true, "No changes needed for " ++ r.path, none, details⟩
  Step.checkCancelled
  Step.writeText place (LineEnding.restore p.content (LineEnding.detect raw))
  Step.journal [⟨.info, .tools, "[ApplyDiff] Applied " ++ Text.ofNat p.applied ++ "/" ++
    Text.ofNat p.outcomes.length ++ " block(s) to " ++ r.path⟩]
  return ⟨true, report w r p, none, details⟩

/-- Carries a request out. -/
def run (w : Workplace) (args : List (Value × Value)) : Step ToolResult := do
  let r ← readRequest args
  apply w r (Path.resolve w.home w.base r.path)

end Amend.DiffTool
