/-
Amend.Tool.Basic — what the two edit tools have in common.

A tool is an action: it asks its surroundings for files, looks whether it
was cancelled, and tells what to record. The names of the tools, the form
of their results and the questions they ask are fixed here.

  §1 Tools and results.
  §2 Questions.
  §3 Steps that may fail.
  §4 Surroundings that answer.
-/
import Amend.Action
import Amend.Refusal
import Amend.Settings
import Amend.Store.Basic
import Amend.Store.Overlay

universe u

namespace Amend

/-! ## §1 Tools and results -/

/-- The two tools: one replaces a text, one applies a request of blocks. -/
inductive Tool where
  | edit
  | diff
  deriving DecidableEq, Repr

namespace Tool

/-- The name callers use. -/
def name : Tool → Text
  | edit => "code_edit"
  | diff => "code_apply_diff"

/-- The name records use. -/
def tag : Tool → Text
  | edit => "CodeEdit"
  | diff => "ApplyDiff"

end Tool

/-- What a tool did to a file. -/
inductive Details where
  | nothing
  | created
  | replaced (strategy : Strategy) (count : Nat)
  | patched (strategy : Strategy) (total applied : Nat)
  deriving DecidableEq, Repr

/-- The details as named values. -/
def Details.fields : Details → List (String × Value)
  | nothing => []
  | created => [("created", .bool true)]
  | replaced s n => [("strategy", .ofString s.name), ("replacements", .int n)]
  | patched s total applied =>
    [("strategy", .ofString s.name), ("blocks_total", .int total), ("blocks_applied", .int applied)]

/-- The answer to a call: whether it succeeded, words for the caller, a code
if it failed, and what was done. -/
structure ToolResult where
  success : Bool
  text : Text
  code : Option Code
  details : Details
  deriving DecidableEq, Repr

/-- What the caller is told of a strategy, if it is not the exact one. -/
def strategyNote (s : Strategy) : Text :=
  if s = .exact then [] else " (matched via " ++ Text.ofString s.name ++ " strategy)"

/-- Where a tool works: relative paths start from `base`, a tilde means
`home`. -/
structure Workplace where
  base : Text
  home : Text
  settings : Settings
  deriving Repr

/-- The workplace in a directory; none given, it is the working directory. -/
def Workplace.at (given working home : Text) (settings : Settings) : Workplace :=
  ⟨if given = [] then working else given, home, settings⟩

/-! ## §2 Questions -/

/-- What a tool asks of its surroundings. -/
inductive ToolQuery : Type → Type where
  | read (path : Text) : ToolQuery (Except FileError Bytes)
  | write (path : Text) (content : Bytes) : ToolQuery (Except FileError Unit)
  | has (path : Text) : ToolQuery Bool
  | makeDirs (path : Text) : ToolQuery (Except FileError Unit)
  /-- Whether the caller has cancelled the call. -/
  | cancelled : ToolQuery Bool
  /-- Writes a record down. -/
  | journal (r : Record) : ToolQuery Unit
  /-- The time of day and date, as it is written. -/
  | now : ToolQuery Text
  /-- Adds to a log, whose directory is made first. -/
  | append (path : Text) (content : Bytes) : ToolQuery (Except FileError Unit)

/-! ## §3 Steps that may fail -/

/-- A step of a tool. -/
abbrev Step := ExceptT Failure (Action ToolQuery)

namespace Step

/-- Asks a question. -/
def ask {α : Type} (q : ToolQuery α) : Step α := ExceptT.lift (Action.query q)

/-- Asks for a file operation and fails if it is refused. -/
def demand {α : Type} (q : ToolQuery (Except FileError α)) : Step α := do
  match ← ask q with
  | .ok a => return a
  | .error e => throw (.file e)

/-- Refuses the request. -/
def refuse {α : Type} (r : Refusal) : Step α := throw (.refused r)

/-- Stops if the caller has cancelled. -/
def checkCancelled : Step Unit := do
  if ← ask .cancelled then refuse .cancelled

/-- Writes records down, in order. -/
def journal : List Record → Step Unit
  | [] => return ()
  | r :: rs => do
    ask (.journal r)
    journal rs

/-- The text of a file. -/
def readText (path : Text) : Step Text := do return Utf8.decode (← demand (.read path))

/-- Makes bytes the content of a file; a text that has none is a fault. -/
def writeBytes (path : Text) : Except Utf8.Unencodable Bytes → Step Unit
  | .ok content => demand (.write path content)
  | .error u => throw (.fault (.unencodable u))

/-- Makes a text the content of a file. -/
def writeText (path text : Text) : Step Unit := writeBytes path (Utf8.tryEncode text)

end Step

/-- The path of the file a request is about, as it was given. -/
def requirePath (args : List (Value × Value)) (purpose : Text) : Step Text :=
  match Value.field? args "file_path" with
  | some (.text path) =>
    if Text.trim path = [] then Step.refuse (.noPath purpose) else return path
  | _ => Step.refuse (.noPath purpose)

/-! ## §4 Surroundings -/

/-- A file store with a journal, a clock and logs. -/
class Surroundings (m : Type → Type u) extends FileStore m where
  /-- Writes a record down. -/
  journal : Record → m Unit
  /-- The date and time, as it is written. -/
  now : m Text
  /-- Adds to a log, whose directory is made first. -/
  append : (path : Text) → Bytes → m (Except FileError Unit)

/-- When a caller cancels: what the signal says each time it is looked at,
counted from one. Without a signal it is never looked at. -/
abbrev Signal := Option (Nat → Bool)

/-- Answers a tool's question; the state is how often the signal was looked
at. -/
def ToolQuery.answer {m : Type → Type u} [Monad m] [Surroundings m] (signal : Signal) {α : Type} :
    ToolQuery α → StateT Nat m α
  | .read path => StateT.lift (FileStore.read path)
  | .write path content => StateT.lift (FileStore.write path content)
  | .has path => StateT.lift (FileStore.has path)
  | .makeDirs path => StateT.lift (FileStore.makeDirs path)
  | .cancelled =>
    match signal with
    | none => return false
    | some s => do
      let n ← get
      set (n + 1)
      return s (n + 1)
  | .journal r => StateT.lift (Surroundings.journal r)
  | .now => StateT.lift Surroundings.now
  | .append path content => StateT.lift (Surroundings.append path content)

/-- Runs a tool's action from its start. -/
def runTool {m : Type → Type u} [Monad m] [Surroundings m] (signal : Signal) {α : Type}
    (a : Action ToolQuery α) : m α :=
  (Action.run (m := StateT Nat m) (ToolQuery.answer signal) a).run' 0

instance {m : Type → Type u} [Monad m] [Surroundings m] : Surroundings (StateT Overlay m) where
  journal r := StateT.lift (Surroundings.journal r)
  now := StateT.lift Surroundings.now
  append path content := StateT.lift (Surroundings.append path content)

/-- Carries staged changes out and records how many files were written. -/
def Overlay.commitRecorded {m : Type → Type u} [Monad m] [Surroundings m] :
    StateT Overlay m (Except FileError (List Text)) := do
  let written ← Overlay.commit
  match written with
  | .ok paths => StateT.lift (Surroundings.journal (Overlay.commitRecord paths.length))
  | .error _ => pure ()
  return written

end Amend
