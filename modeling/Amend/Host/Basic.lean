/-
Amend.Host.Basic — what a command asks of the machine it runs on.

A command is an action whose questions are about files, the environment,
the standard streams, the log of the program's own work and the user. Every
host is a place for tools to work in, directly or with changes staged over
its files.
-/
import Amend.Review.Change
import Amend.Tool.Basic

namespace Amend

/-- What a command asks. -/
inductive HostQuery : Type → Type where
  | read (path : Text) : HostQuery (Except FileError Bytes)
  | write (path : Text) (content : Bytes) : HostQuery (Except FileError Unit)
  | has (path : Text) : HostQuery Bool
  | isFile (path : Text) : HostQuery Bool
  | makeDirs (path : Text) : HostQuery (Except FileError Unit)
  /-- Adds to a file, whose directory is made first. -/
  | append (path : Text) (content : Bytes) : HostQuery (Except FileError Unit)
  /-- Starts a log of the program's own work in a directory. -/
  | openLog (directory : Text) : HostQuery (Except FileError Unit)
  /-- Writes a record down, if a log was started. -/
  | journal (r : Record) : HostQuery Unit
  /-- The date and time, as it is written. -/
  | now : HostQuery Text
  | variable (name : Text) : HostQuery (Option Text)
  | workingDirectory : HostQuery Text
  /-- What is left of the standard input. -/
  | input : HostQuery Text
  /-- Writes to the standard output. -/
  | print (t : Text) : HostQuery Unit
  /-- Writes to the standard error stream. -/
  | complain (t : Text) : HostQuery Unit
  /-- Shows changes to the user and asks whether to write them. -/
  | approve (changes : List Change) : HostQuery Bool

/-- An action of a command. -/
abbrev Host := Action HostQuery

namespace Host

/-- Asks one question. -/
def ask {α : Type} (q : HostQuery α) : Host α := Action.query q

instance : Surroundings Host where
  read path := ask (.read path)
  write path content := ask (.write path content)
  has path := ask (.has path)
  makeDirs path := ask (.makeDirs path)
  journal r := ask (.journal r)
  now := ask .now
  append path content := ask (.append path content)

end Host

end Amend
