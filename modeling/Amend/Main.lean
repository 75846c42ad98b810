/-
Amend.Main — the program on the machine it is started on.

Everything that is decided is decided in `Amend.Command`. Here its questions
are put to the operating system and to the user, who is asked on the
terminal.

  §1 Texts, paths and refusals.
  §2 The time.
  §3 Answers.
  §4 The program.
-/
import Std.Time.Zoned
import Amend.Command.Run
import Amend.Review.Approval

namespace Amend.Live

/-! ## §1 Texts, paths and refusals -/

/-- A text as the system spells it. Surrogates have no spelling. -/
def spelled (t : Text) : String :=
  String.ofList (t.map fun
    | .char c => c
    | .stray _ => '\uFFFD')

/-- The refusal that an error of the system is. -/
def refusal (path : Text) : IO.Error → FileError
  | .noFileOrDirectory .. => .noEntry path
  | .alreadyExists .. => .fileExists path
  | .permissionDenied _ number _ => .system number.toNat "Permission denied" path none
  | .inappropriateType _ number _ =>
    if number = 20 then .noDirectory path else .directory path
  | e => .system 5 (Text.ofString (toString e)) path none

/-- Tries a file operation. -/
def attempt {α : Type} (path : Text) (x : String → IO α) : IO (Except FileError α) := do
  if let some e := FileError.ofPath? path then return .error e
  try return .ok (← x (spelled path))
  catch e => return .error (refusal path e)

/-- Bytes as the system takes them. -/
def packed (bs : Bytes) : ByteArray := ⟨bs.toArray⟩

/-- Adds bytes to a file. -/
def appendBytes (path : String) (bs : Bytes) : IO Unit := do
  let h ← IO.FS.Handle.mk path .append
  h.write (packed bs)

/-- Makes a directory and those above it; the empty path names none. -/
def makeDirs (path : Text) : IO (Except FileError Unit) :=
  if path = [] then return .ok () else attempt path fun p => IO.FS.createDirAll p

/-- Whether something of this path is there. -/
def has (path : Text) : IO Bool := do
  return (← attempt path fun p => IO.FS.realPath p).toOption.isSome

/-- Writes to a stream at once. -/
def emit (s : IO.FS.Stream) (t : Text) : IO Unit := do
  s.write (packed (Utf8.encode t))
  s.flush

/-! ## §2 The time -/

/-- A number of at least two digits. -/
def two (n : Int) : String := padded 2 n.toNat

/-- The hours, minutes and seconds of a day with `sep` between them. -/
def timeOfDay (sep : String) (t : Std.Time.PlainDateTime) : String :=
  two t.hour.val ++ sep ++ two t.minute.val ++ sep ++ two t.second.val

/-- The year, month and day of a date with `sep` between them. -/
def dayText (sep : String) (t : Std.Time.PlainDateTime) : String :=
  padded 4 (Int.toNat t.year) ++ sep ++ two t.month.val ++ sep ++ two t.day.val

/-- The universal date and time. -/
def universalNow : IO Text := do
  let t := (Std.Time.DateTime.ofTimestamp (← Std.Time.Timestamp.now) .UTC).toPlainDateTime
  return Text.ofString (dayText "-" t ++ "T" ++ timeOfDay ":" t ++ "." ++
    padded 6 (Int.toNat (t.nanosecond.val / 1000)) ++ "+00:00")

/-! ## §3 Answers -/

/-- What is kept while the program runs: the log file, if one was started. -/
abbrev Session := StateT (Option String) IO

/-- Starts a log file in a directory. -/
def openLog (directory : Text) : Session (Except FileError Unit) := do
  let t ← Std.Time.PlainDateTime.now
  let name := "smartpatch_" ++ dayText "" t ++ "_" ++ timeOfDay "" t ++ ".log"
  let path := Path.join directory (Text.ofString name)
  match ← attempt directory fun d => IO.FS.createDirAll d with
  | .error e => return .error e
  | .ok () =>
    let r ← attempt path fun p => appendBytes p []
    if r.toOption.isSome then set (some (spelled path))
    return r

/-- Writes a record down. -/
def journal (r : Record) : Session Unit := do
  match ← get with
  | some path =>
    let t ← Std.Time.PlainDateTime.now
    appendBytes path (r.logged (Text.ofString (timeOfDay ":" t)))
  | none => return ()

/-- Puts the question until it is answered with yes or no. -/
partial def askUser : IO Bool := do
  emit (← IO.getStdout) Console.question
  let line ← (← IO.getStdin).getLine
  if line.isEmpty then return false
  match Console.meaning (Text.ofString line) with
  | some answer => return answer
  | none => askUser

/-- Shows changes and asks about them. -/
def approve (changes : List Change) : Session Bool := do
  let staged := Change.staged changes
  if staged.isEmpty then return true
  journal (Approval.noScreenRecord "no terminal")
  emit (← IO.getStdout) (Change.printed staged)
  askUser

/-- What is left of the standard input. -/
partial def readAll (s : IO.FS.Stream) (acc : ByteArray) : IO ByteArray := do
  let more ← s.read 65536
  if more.isEmpty then return acc else readAll s (acc ++ more)

/-- The answer to a question of a command. -/
def answer {α : Type} : HostQuery α → Session α
  | .read path => do
    return (← attempt path fun p => IO.FS.readBinFile p).map fun b => b.toList
  -- A file is written in place, which keeps its permission bits.
  | .write path content => attempt path fun p => IO.FS.writeBinFile p (packed content)
  | .has path => has path
  | .isFile path => do
    return (← attempt path fun p => IO.FS.readBinFile p).toOption.isSome
  | .makeDirs path => makeDirs path
  | .append path content => do
    match ← makeDirs (Path.directory path) with
    | .error e => return .error e
    | .ok () => attempt path fun p => appendBytes p content
  | .openLog directory => openLog directory
  | .journal r => journal r
  | .now => universalNow
  | .variable name => do return (← IO.getEnv (spelled name)).map Text.ofString
  | .workingDirectory => do return Text.ofString (toString (← IO.currentDir))
  | .input => do
    return Text.universal (Utf8.decode (← readAll (← IO.getStdin) .empty).toList)
  | .print t => do emit (← IO.getStdout) t
  | .complain t => do emit (← IO.getStderr) t
  | .approve changes => approve changes

end Amend.Live

/-! ## §4 The program -/

/-- Carries out the call that the arguments make. A wrong call ends with two,
a failed one with one. -/
def main (arguments : List String) : IO UInt32 := do
  match Amend.Command.readCall (arguments.map Amend.Text.ofString) with
  | .error complaint =>
    let wrong := complaint.isWrong
    Amend.Live.emit (← if wrong then IO.getStderr else IO.getStdout) (complaint.message ++ [Amend.lf])
    return if wrong then 2 else 0
  | .ok call =>
    match ← (Amend.Action.run (m := Amend.Live.Session) Amend.Live.answer
        (Amend.Command.run call).run).run' none with
    | .ok succeeded => return if succeeded then 0 else 1
    | .error fault =>
      Amend.Live.emit (← IO.getStderr) (fault.message ++ [Amend.lf])
      return 1
