/-
Amend.Command.Run — carrying out a call of the program.

A call loads its settings, starts the log of its own work unless it is told
not to, and then shows figures or edits files. Edits that are only to be
shown or to be approved are staged and dealt with once all of them are made.
A call succeeds if all its edits did and none was turned down; only a fault
ends it before.

  §1 Tasks in any place of work.
  §2 Staged changes.
  §3 Figures.
  §4 Calls.
-/
import Amend.Command.Invocation
import Amend.Command.Plan
import Amend.Host.Basic
import Amend.Metric
import Amend.Path
import Amend.Settings.Load
import Amend.Tool.Execute

namespace Amend.Command

variable {m : Type → Type 1} [Monad m] [Surroundings m] [MonadLiftT Host m]

/-! ## §1 Tasks in any place of work -/

/-- A step of a call that a fault may end. -/
abbrev Work (m : Type → Type 1) := ExceptT Fault m

namespace Work

/-- Asks the host. -/
def ask {α : Type} (q : HostQuery α) : Work m α :=
  ExceptT.lift (MonadLiftT.monadLift (Host.ask q))

/-- Asks the host for a file operation, whose refusal is a fault. -/
def demand {α : Type} (q : HostQuery (Except FileError α)) : Work m α := do
  match ← ask q with
  | .ok a => return a
  | .error e => throw (.file e)

/-- Ends the call unless there is a value. -/
def ofExcept {α : Type} : Except Fault α → Work m α
  | .ok a => return a
  | .error f => throw f

/-- Prints a line, on the error stream if it is about a failure. -/
def say (success : Bool) (line : Text) : Work m Unit :=
  let t := line ++ [lf]
  ask (if success then .print t else .complain t)

end Work

/-- Calls a tool. -/
def callTool (t : Tool) (w : Workplace) (args : List (Value × Value)) : Work m ToolResult :=
  ExceptT.mk (runTool none (t.execute w (.mapping args)))

/-- The fields of a request. -/
def request (fields : List (String × Value)) : List (Value × Value) :=
  fields.map fun (k, v) => (Value.ofString k, v)

/-- The text of a file, which must be UTF-8. -/
def readWhole (path : Text) : Work m Text := do
  match Utf8.decodeStrict (← Work.demand (.read path)) with
  | .ok t => return t
  | .error e => throw (.malformed e)

/-- What a request gets for a text that is given; none given is an empty
list there. -/
def Given.value : Given → Work m Value
  | words t => return t.elim (.list []) .text
  | file (some path) => return .text (← readWhole path)
  | file none => throw .noPath

/-- Calls a tool and prints its result. -/
def callAndSay (t : Tool) (w : Workplace) (args : List (Value × Value)) : Work m Bool := do
  let r ← callTool t w args
  Work.say r.success r.text
  return r.success

/-- One search and replacement. -/
def runEdit (w : Workplace) (file : Text) (old new : Given) (expected : Option (Option Int)) :
    Work m Bool := do
  let old ← old.value
  let new ← new.value
  let count : List (String × Value) :=
    match expected with
    | some n => [("expected_replacements", n.elim (.list []) .int)]
    | none => []
  callAndSay .edit w (request ([("file_path", .text file), ("old_string", old),
    ("new_string", new)] ++ count))

/-- A request of blocks; without a file it is read from the standard input. -/
def runDiff (w : Workplace) (file : Text) (diffFile : Option Text) : Work m Bool := do
  let diff ←
    match diffFile.filter (· ≠ []) with
    | some path => readWhole path
    | none => Work.ask .input
  callAndSay .diff w (request [("file_path", .text file), ("diff", .text diff)])

/-- Carries out requests in order, each announced by its number, of `total`,
and its path. How many succeeded is returned. -/
def runRequests (w : Workplace) (total : Nat) : (number : Nat) → Plan → Work m Nat
  | _, [] => return 0
  | number, r :: rs => do
    let result ← callTool (Plan.toolFor r) w r
    match Plan.pathShown? r with
    | none => throw .tooLongNumber
    | some path =>
      Work.say result.success ("[" ++ Text.ofNat number ++ "/" ++ Text.ofNat total ++ " " ++ path ++
        "] " ++ result.text)
      return (if result.success then 1 else 0) + (← runRequests w total (number + 1) rs)

/-- A list of edits. -/
def runBatch (w : Workplace) (plan : Text) : Work m Bool := do
  match Plan.read plan (← Work.ask (.read plan)) with
  | .error e =>
    Work.say false ("Failed to load plan: " ++ (← Work.ofExcept e.message))
    return false
  | .ok rs =>
    let succeeded ← runRequests w rs.length 1 rs
    Work.say true ("\n" ++ Text.ofNat succeeded ++ "/" ++ Text.ofNat rs.length ++
      " edit(s) succeeded.")
    return succeeded = rs.length

/-- A task that edits files. -/
def runTask (w : Workplace) : Task → Work m Bool
  | .edit file old new expected => runEdit w file old new expected
  | .applyDiff file diffFile => runDiff w file diffFile
  | .batch plan => runBatch w plan
  | .stats _ => return true

/-! ## §2 Staged changes -/

/-- A place of work whose changes are staged over the host's files. -/
abbrev Staged := StateT Overlay Host

/-- Staged files as changes of what they replace. -/
def changesOf : Table Text Bytes → Work Host (List Change)
  | [] => return []
  | (path, content) :: fs => do
    match ← ExceptT.lift (Overlay.beneath path) with
    | .error e => throw (.file e)
    | .ok old =>
      return ⟨path, old.map Utf8.decodeLossy, Utf8.decodeLossy content⟩ :: (← changesOf fs)

/-- Shows staged changes and forgets them. -/
def showStaged (changes : List Change) : Work Staged Unit := do
  Work.ask (.print (Change.printed (Change.staged changes)))
  ExceptT.lift Overlay.discard
  Work.say true "\n(dry run: no files written)"

/-- Writes staged changes if the user approves of them, else forgets them. -/
def writeApproved (changes : List Change) : Work Staged Bool := do
  if ← Work.ask (.approve changes) then
    match ← ExceptT.lift Overlay.commitRecorded with
    | .ok paths =>
      Work.say true ("Wrote " ++ Text.ofNat paths.length ++ " file(s).")
      return true
    | .error e => throw (.file e)
  else
    ExceptT.lift Overlay.discard
    Work.say false "Changes rejected; no files written."
    return false

/-- Deals with what is staged, if anything is. Whether it was turned down is
returned as false. -/
def settleStaged (dryRun : Bool) : Work Staged Bool := do
  let o ← ExceptT.lift get
  if o.isEmpty then return true
  let changes ← ExceptT.mk (StateT.lift (changesOf o.pending).run)
  if dryRun then
    showStaged changes
    return true
  else writeApproved changes

/-- A task whose changes are staged. -/
def runStaged (w : Workplace) (dryRun : Bool) (t : Task) : Work Staged Bool := do
  let done ← runTask w t
  let settled ← settleStaged dryRun
  return done && settled

/-! ## §3 Figures -/

/-! Percentages are printed as whole numbers, a half going to the even
neighbour, and names stand in a column of twenty. -/

namespace Report

/-- The width of the column of names. -/
def nameWidth : Nat := 20

/-- A name as it is printed; truth values count as numbers here. -/
def nameText : Value → Text
  | .bool b => if b then "1" else "0"
  | v => v.shown

/-- A text with spaces after it up to a width. -/
def fill (width : Nat) (t : Text) : Text := t ++ List.replicate (width - t.length) (.char ' ')

/-- A percentage. -/
def percentText (x : Binary64) : Text := Text.ofNat (x.rounded?.getD 0) ++ "%"

/-- What is printed where no edit was logged. -/
def nothing : Text :=
  "No edit metrics found yet.\n" ++
    "Enable record_metrics in .smartpatch.yaml or set SMARTPATCH_RECORD_METRICS=true.\n"

/-- The figures of the newest `n` entries. -/
def text (n : Int) (f : Metric.Figures) : Text :=
  if f.total = 0 then nothing
  else
    let row (label : String) (value : Text) : Text := "  " ++ Text.ofString label ++ value ++ [lf]
    let strategy (s : Value × Binary64) : Text :=
      "    " ++ fill nameWidth (nameText s.1) ++ percentText s.2 ++ [lf]
    let heading : Text := "\nEdit stats (last " ++ Text.ofInt n ++ " invocations)\n"
    let rule : Text := List.replicate 40 (.char '-') ++ [lf]
    heading ++ rule ++
      row "Total invocations : " (Text.ofNat f.total) ++
      row "Success rate      : " (percentText f.success) ++
      row "Partial rate      : " (percentText f.partly) ++
      row "Fallback rate     : " (percentText f.fallback) ++
      f.strategies.flatMap strategy ++ [lf]

end Report

/-- The entries of a log; one that cannot be read has none. -/
def entriesAt (path : Text) : Work Host (List Value) := do
  if ← Work.ask (.isFile path) then
    match ← Work.ask (.read path) with
    | .ok b => Work.ofExcept (Metric.values b)
    | .error e =>
      Work.ask (.journal (Metric.readFailure e))
      return []
  else return []

/-- Prints the figures of the newest `n` entries of the log of edits. -/
def runStats (base : Text) (settings : Settings) (n : Option Int) : Work Host Bool := do
  let entries ← entriesAt (Metric.logPath base settings.metricsDir)
  match n with
  | none => throw .noCount
  | some n =>
    let figures ← Work.ofExcept (Metric.figures (Metric.newest n entries))
    Work.ask (.print (Report.text n figures))
    return true

/-! ## §4 Calls -/

/-- A truth value as records give it. -/
def flagText (b : Bool) : Text := if b then "True" else "False"

/-- The record that a call starts with. -/
def startRecord (i : Invocation) : Record :=
  ⟨.info, .commandLine, "[CLI] " ++ Text.ofString i.task.name ++ " (dry_run=" ++
    flagText i.dryRun ++ ", review=" ++ flagText i.review ++ ")"⟩

/-- Carries out a call; whether it succeeded is returned. -/
def run (i : Invocation) : Work Host Bool := do
  let settings ← ExceptT.mk (Settings.load i.config)
  if i.logs then Work.demand (.openLog settings.logDir)
  let working ← Work.ask .workingDirectory
  let home ← ExceptT.lift (Settings.variableOrEmpty "HOME")
  let w := Workplace.at (i.directory.getD []) working home settings
  match i.task with
  | .stats n => runStats w.base settings n
  | task =>
    Work.ask (.journal (startRecord i))
    if i.dryRun || i.review then
      ExceptT.mk do
        let (result, _) ← (runStaged w i.dryRun task).run.run {}
        return result
    else runTask w task

end Amend.Command
