/-
Amend.Host.Machine — a machine as a value.

The machine holds a disk, the variables of the environment, what stands on
the standard streams, and the records written. Its screen does not start, so
the user is asked on the terminal and answers on the standard input.

  §1 The machine.
  §2 Answering a command.
-/
import Amend.Host.Basic
import Amend.Path
import Amend.Review.Approval
import Amend.Store.Disk

namespace Amend

/-! ## §1 The machine -/

/-- A machine that commands run on. -/
structure Machine where
  disk : Disk := {}
  environment : Text → Option Text := fun _ => none
  /-- What is left of the standard input. -/
  input : Text := []
  output : Text := []
  errors : Text := []
  /-- The log file, if one was started. -/
  log : Option Text := none
  records : List Record := []
  /-- The date and time for metrics, the time of day for records, and the
  name of a log file that is started. -/
  clock : Text := []
  timeOfDay : Text := []
  logName : Text := []
  /-- Why the screen does not start. -/
  noScreen : Text := []

namespace Machine

variable {α : Type}

/-- Runs a program on the disk. -/
def onDisk (x : StateM Disk α) : StateM Machine α := zoom disk (fun s t => { s with disk := t }) x

/-- Starts a log file in a directory, which is made first. -/
def openLog (directory : Text) : StateM Machine (Except FileError Unit) := do
  let path := Path.join directory (← get).logName
  let opened : Disk.Change Unit := do
    Disk.makeDirs directory
    Disk.append path []
  match ← onDisk opened.run with
  | .ok () =>
    modify fun m => { m with log := some (m.disk.absolute path) }
    return .ok ()
  | .error e => return .error e

/-- Writes a record down, and to the log file if there is one. -/
def journal (r : Record) : StateM Machine Unit := do
  modify fun m => { m with records := m.records ++ [r] }
  match (← get).log with
  | some path => do
    let _ ← onDisk (Disk.append path (r.logged (← get).timeOfDay)).run
    return ()
  | none => return ()

/-- Asks the user about changes; the answers are taken from the standard
input. -/
def approve (changes : List Change) : StateM Machine Bool := do
  let m ← get
  let d := Approval.decide changes (.terminal m.noScreen m.input)
  set { m with input := [], output := m.output ++ d.printed }
  d.records.forM journal
  return d.approved

end Machine

/-! ## §2 Answering a command -/

/-- The machine's answer to a question. -/
def HostQuery.answer {α : Type} : HostQuery α → StateM Machine α
  | .read path => Machine.onDisk (FileStore.read path)
  | .write path content => Machine.onDisk (FileStore.write path content)
  | .has path => Machine.onDisk (FileStore.has path)
  | .isFile path => do return (← get).disk.isFile path
  | .makeDirs path => Machine.onDisk (FileStore.makeDirs path)
  | .append path content => Machine.onDisk (Disk.appendMaking path content).run
  | .openLog directory => Machine.openLog directory
  | .journal r => Machine.journal r
  | .now => do return (← get).clock
  | .variable name => do return (← get).environment name
  | .workingDirectory => do return (← get).disk.workingPath
  | .input => do
    let m ← get
    set { m with input := [] }
    return Text.universal m.input
  | .print t => modify fun m => { m with output := m.output ++ t }
  | .complain t => modify fun m => { m with errors := m.errors ++ t }
  | .approve changes => Machine.approve changes

/-- Runs an action on a machine. -/
def Host.onMachine {α : Type} (x : Host α) : StateM Machine α := x.run HostQuery.answer

end Amend
