/-
Amend.Tool.Edit — the tool that replaces one text in a file.

Everything about the request is checked before the file is touched. With an
empty search text the tool creates a file, otherwise it edits one that is
there. The file is written at most once, as the last thing that can fail.
-/
import Amend.Excerpt
import Amend.LineEnding
import Amend.Path
import Amend.Tool.Basic

namespace Amend.EditTool

/-! ## §1 Arguments -/

/-- The number of occurrences a request expects; one if it says nothing. A
whole number written with a point is one too, a truth value is none. -/
def expectedCount (v : Option Value) : Step Nat :=
  match v with
  | none => return 1
  | some .null => return 1
  | some (.float x) =>
    if x.isInteger then positive ((x.truncate?).elim .null .int) else invalid (.float x)
  | some v => positive v
where
  /-- The refusal of a value, which names it. -/
  invalid (v : Value) : Step Nat :=
    match v.unwritable? Value.displayDepth with
    | none => Step.refuse (.count v.display)
    | some why => throw (.fault why.fault)
  /-- A positive integer, or a refusal. -/
  positive (v : Value) : Step Nat :=
    match v with
    | .int (.ofNat (n + 1)) => return n + 1
    | v => invalid v

/-- A request to edit: which file, what to find and what to put there. -/
structure Request where
  path : Text
  search : Text
  replacement : Text
  expected : Nat
  deriving DecidableEq, Repr

/-- Reads a request's arguments. -/
def readRequest (args : List (Value × Value)) : Step Request := do
  let path ← requirePath args "edit"
  let some (.text search) := Value.field? args "old_string" | Step.refuse .noSearch
  let some (.text replacement) := Value.field? args "new_string" | Step.refuse .noReplacement
  let expected ← expectedCount (Value.field? args "expected_replacements")
  return ⟨path, search, replacement, expected⟩

/-! ## §2 Creating a file -/

/-- Creates the file at `place`, unless there is one. -/
def create (w : Workplace) (r : Request) (place : Text) : Step ToolResult := do
  if ← Step.ask (.has place) then Step.refuse (.present r.path)
  Step.checkCancelled
  Step.demand (.makeDirs (Path.directory place))
  Step.writeText place r.replacement
  Step.journal [⟨.info, .tools, "[CodeEdit] Created " ++ r.path⟩]
  let count := (Text.lines r.replacement).length
  return {
    success := true
    text := "Created new file: " ++ r.path ++ " (" ++ Text.ofNat count ++ " lines)\n\n" ++
      Excerpt.preview r.replacement w.settings.createPreviewLines
    code := none
    details := .created }

/-! ## §3 Editing a file -/

/-- What the caller is told of an edit. -/
def report (w : Workplace) (r : Request) (replacement : Text) (e : Edit) : Text :=
  let how := strategyNote e.found.strategy
  let times : Text :=
    if 1 < r.expected then " (" ++ Text.ofNat r.expected ++ " replacements)" else []
  "Successfully edited " ++ r.path ++ how ++ times ++ "\n\nPost-edit context:\n" ++
    Excerpt.aroundEdit e.content replacement w.settings.editContextLines
      (e.found.positions.head?.map Int.ofNat)

/-- Refuses a request that no strategy could carry out. A count that is not
met is named in the refusal, so it must not be too long for that. -/
def refuseMismatch (path : Text) (m : Mismatch) : Step ToolResult :=
  if m.isMiss || (Value.int m.expected).display?.isSome then Step.refuse (.mismatch path m)
  else throw (.fault .tooLongNumber)

/-- Edits the file at `place`; line endings are those of the file. -/
def edit (w : Workplace) (r : Request) (place : Text) : Step ToolResult := do
  let search := LineEnding.normalize r.search
  let replacement := LineEnding.normalize r.replacement
  if search = replacement then Step.refuse .identical
  if !(← Step.ask (.has place)) then Step.refuse (.absent r.path true)
  let raw ← Step.readText place
  Step.checkCancelled
  let content := LineEnding.normalize raw
  Step.journal (resolveRecords content search r.expected)
  match resolveEdit content search replacement r.expected with
  | .error m => refuseMismatch r.path m
  | .ok e =>
    let details := Details.replaced e.found.strategy e.found.count
    if e.content = content then
      return ⟨true, "No changes needed for " ++ r.path, none, details⟩
    Step.checkCancelled
    Step.writeText place (LineEnding.restore e.content (LineEnding.detect raw))
    Step.journal [⟨.info, .tools, "[CodeEdit] Edited " ++ r.path ++ ": " ++
      Text.ofNat e.found.count ++ " replacement(s) via " ++ Text.ofString e.found.strategy.name⟩]
    return ⟨true, report w r replacement e, none, details⟩

/-- Carries a request out. -/
def run (w : Workplace) (args : List (Value × Value)) : Step ToolResult := do
  let r ← readRequest args
  let place := Path.resolve w.home w.base r.path
  if r.search = [] then create w r place else edit w r place

end Amend.EditTool
