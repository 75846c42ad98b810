/-
Amend.Journal — what the program writes down about its own work.

The parts of the program do not write records themselves: each says, as a
list, which records its work calls for, and whoever runs it decides where
they go.
-/
import Amend.Text.Utf8

namespace Amend

/-- How much a record matters, least first. -/
inductive Level where
  | debug
  | info
  | warning
  | error
  deriving DecidableEq, Repr

/-- The part of the program a record is about. -/
inductive Topic where
  | matching
  | blocks
  | location
  | patching
  | metrics
  | tools
  | stores
  | review
  | commandLine
  deriving DecidableEq, Repr

/-- One record: how much it matters, what it is about, what it says. -/
structure Record where
  level : Level
  topic : Topic
  message : Text
  deriving DecidableEq, Repr

/-- The level as it is written. -/
def Level.name : Level → String
  | debug => "DEBUG"
  | info => "INFO"
  | warning => "WARNING"
  | error => "ERROR"

/-- The topic as it is written. -/
def Topic.name : Topic → String
  | matching => "smart_patch.editing.match_resolver"
  | blocks => "smart_patch.editing.diff_parser"
  | location => "smart_patch.editing.locator"
  | patching => "smart_patch.editing.patch_applier"
  | metrics => "smart_patch.editing.metrics"
  | tools => "smart_patch.tools"
  | stores => "smart_patch.file_ops"
  | review => "smart_patch.cli_display"
  | commandLine => "smart_patch.cli"

/-- A record as a line of the log file, after the time of day `clock`. -/
def Record.line (clock : Text) (r : Record) : Text :=
  clock ++ " [" ++ Text.ofString r.level.name ++ "] " ++ Text.ofString r.topic.name ++ ": "
    ++ r.message ++ [lf]

/-- What a log file gets for a record. A log file holds UTF-8 alone, and a
record with a surrogate in it is left out. -/
def Record.logged (clock : Text) (r : Record) : Bytes :=
  if (r.line clock).any Symbol.isSurrogate then [] else Utf8.encode (r.line clock)

end Amend
