/-
Amend.Command.Invocation — what a call of the program asks for.

  §1 Invocations.
  §2 The arguments that are understood.
  §3 Reading a call.
-/
import Amend.Command.Arguments

namespace Amend.Command

/-! ## §1 Invocations -/

/-- A text that is given as it is, or by the file that holds it; a switch
for one may also give none. -/
inductive Given where
  | words (t : Option Text)
  | file (path : Option Text)
  deriving DecidableEq, Repr

/-- What is to be done. -/
inductive Task where
  /-- One search and replacement. That a count is given does not mean that it
  is a number. -/
  | edit (file : Text) (old new : Given) (expected : Option (Option Int))
  /-- A request of blocks, from a file or the standard input. -/
  | applyDiff (file : Text) (diffFile : Option Text)
  /-- A list of edits. -/
  | batch (plan : Text)
  /-- The figures of the newest entries of the log of edits. -/
  | stats (newest : Option Int)
  deriving DecidableEq, Repr

/-- A call of the program. -/
structure Invocation where
  /-- The settings file; empty if none is named. -/
  config : Text := []
  /-- Where relative paths start; the working directory if it is not given. -/
  directory : Option Text := none
  /-- Whether changes are only shown. -/
  dryRun : Bool := false
  /-- Whether the user is asked before changes are written. -/
  review : Bool := false
  /-- Whether the program keeps a log of its own work. -/
  logs : Bool := true
  task : Task
  deriving DecidableEq, Repr

/-- The name of a task. -/
def Task.name : Task → String
  | edit .. => "edit"
  | applyDiff .. => "apply-diff"
  | batch _ => "batch"
  | stats _ => "stats"

/-! ## §2 The arguments that are understood -/

/-- The name of the program. -/
def program : Text := "smartpatch"

/-- The arguments of every call. -/
def callForm : Form where
  program := program
  switches := [⟨["--config"], .text⟩, ⟨["--cwd"], .text⟩, ⟨["--dry-run"], .mark⟩,
    ⟨["--review"], .mark⟩, ⟨["--no-log"], .mark⟩]
  subject := .command "COMMAND" ["edit", "apply-diff", "batch", "stats"]

/-- The arguments of a task. -/
def taskForm (name : String) (switches : List Switch) (subject : Subject)
    (groups : List (List String)) : Form :=
  ⟨program ++ " " ++ Text.ofString name, switches, subject, groups⟩

/-- The arguments of an edit. -/
def editForm : Form :=
  taskForm "edit" [⟨["--old"], .text⟩, ⟨["--old-file"], .text⟩, ⟨["--new"], .text⟩,
    ⟨["--new-file"], .text⟩, ⟨["--expected"], .integer⟩] (.word "file")
    [["--old", "--old-file"], ["--new", "--new-file"]]

/-- The arguments of a request of blocks. -/
def diffForm : Form := taskForm "apply-diff" [⟨["--diff-file"], .text⟩] (.word "file") []

/-- The arguments of a list of edits. -/
def batchForm : Form := taskForm "batch" [] (.word "plan") []

/-- The arguments of the figures. -/
def statsForm : Form := taskForm "stats" [⟨["--last-n"], .integer⟩] .nothing []

/-- How many entries the figures look at, unless a call says it. -/
def defaultNewest : Int := 50

/-! ## §3 Reading a call -/

/-- The text that one of two switches gives. -/
def givenBy (r : Reading) (words file : String) : Given :=
  if r.has file then .file (r.text? file) else .words (r.text? words)

/-- The integer that a switch gives, if it is given. -/
def integerGiven? (r : Reading) (name : String) : Option (Option Int) :=
  if r.has name then some (r.integer? name) else none

/-- The word that is the subject. -/
def subjectOf (r : Reading) : Text := (r.subject.map Prod.fst).getD []

/-- Reads the arguments of a task; words that stand for nothing are kept. -/
def readTask (name : Text) (arguments : List Text) : Except Complaint (Task × List Text) := do
  if name == ("edit" : Text) then
    let r ← editForm.read arguments
    return (.edit (subjectOf r) (givenBy r "--old" "--old-file") (givenBy r "--new" "--new-file")
      (integerGiven? r "--expected"), r.extras)
  else if name == ("apply-diff" : Text) then
    let r ← diffForm.read arguments
    return (.applyDiff (subjectOf r) (r.text? "--diff-file"), r.extras)
  else if name == ("batch" : Text) then
    let r ← batchForm.read arguments
    return (.batch (subjectOf r), r.extras)
  else
    let r ← statsForm.read arguments
    return (.stats ((integerGiven? r "--last-n").getD (some defaultNewest)), r.extras)

/-- Reads the arguments of a call. -/
def readCall (arguments : List Text) : Except Complaint Invocation := do
  let r ← callForm.read arguments
  let (name, rest) := r.subject.getD ([], [])
  let (task, extras) ← readTask name rest
  let extras := r.extras ++ extras
  if extras ≠ [] then callForm.complain ("unrecognized arguments: " ++ Text.join " " extras)
  else
    return { config := (r.text? "--config").getD [], directory := r.text? "--cwd",
             dryRun := r.has "--dry-run", review := r.has "--review", logs := !r.has "--no-log",
             task }

end Amend.Command
