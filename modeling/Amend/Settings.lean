/-
Amend.Settings — the nine settings and where their values come from.

A setting is looked for in the environment, then in the data of a settings
file, and else has its default. A value that does not convert counts as not
given; an infinite number where an integer is needed stops the program, as do
values too deep inside each other where a text is needed.

  §1 The settings and their defaults.
  §2 Converting values.
  §3 Finding values.
-/
import Amend.Fault
import Amend.Value.Display

namespace Amend

/-! ## §1 Settings -/

/-- What a user can set. -/
structure Settings where
  /-- How many lines on each side of a hint are searched first. -/
  hintWindow : Int := 30
  /-- How many lines are shown on each side of an edit. -/
  editContextLines : Int := 5
  /-- How many lines are shown before the first block put in. -/
  diffContextBefore : Int := 3
  /-- How many lines are shown from the first block put in on. -/
  diffContextAfter : Int := 15
  /-- How many lines of a new file are shown. -/
  createPreviewLines : Int := 20
  /-- Whether a request of one block is told that it may have more. -/
  singleBlockNotice : Bool := true
  /-- Whether edits are logged. -/
  recordMetrics : Bool := false
  /-- Where edits are logged. -/
  metricsDir : Text := ".smartpatch"
  /-- Where the program's own records go. -/
  logDir : Text := ".smartpatch/logs"
  deriving DecidableEq, Repr

namespace Settings

/-! ## §2 Converting values -/

/-- Byte strings that are ASCII, as texts. -/
def asciiText? (bs : Bytes) : Option Text :=
  if bs.all fun b => b < 0x80 then
    some (bs.map fun b => .char (Char.ofNat b.toNat))
  else none

/-- A value as an integer: numbers are cut toward zero, texts are read. -/
def toInt? : Value → Except Fault (Option Int)
  | .bool b => .ok (some (if b then 1 else 0))
  | .int i => .ok (some i)
  | .float (.infinite _) => .error .infinite
  | .float x => .ok x.truncate?
  | .text t => .ok (Decimal.readInt t).toOption
  | .bytes bs => .ok ((asciiText? bs).bind fun t => (Decimal.readInt t).toOption)
  | _ => .ok none

/-- The words that mean yes. -/
def yesWords : List Text := ["1", "true", "yes", "on"]

/-- A value as a choice: texts by their meaning, others by whether they count
as true. -/
def toFlag : Value → Bool
  | .text t => yesWords.contains (Text.toLower (Text.trim t))
  | v => v.truthy

/-- A value as a text: in words, unless an integer in it is too long. -/
def toWords? (v : Value) : Except Fault (Option Text) :=
  match v.unwritable? Value.displayDepth with
  | none => .ok (some v.shown)
  | some .tooLong => .ok none
  | some .tooDeep => .error (.tooDeep " while getting the repr of an object")

/-! ## §3 Finding values -/

/-- Where settings are looked for: the environment, and the data of a
settings file. -/
structure Source where
  environment : Text → Option Text
  data : Value

/-- The environment variable of a setting. -/
def variableName (key : String) : Text := Text.ofString ("SMARTPATCH_" ++ key.toUpper)

/-- The value given for a setting. Data that counts as false has no keys;
data that is no mapping cannot be asked. -/
def Source.find (s : Source) (key : String) : Except Fault (Option Value) :=
  match s.environment (variableName key) with
  | some t => .ok (some (.text t))
  | none =>
    if !s.data.truthy then .ok none
    else
      match s.data with
      | .mapping es =>
        match Value.field? es key with
        | some .null => .ok none
        | v => .ok v
      | v => .error (.noFields v.kind "get")

/-- The integer given for a setting. -/
def Source.int (s : Source) (key : String) (default : Int) : Except Fault Int := do
  match ← s.find key with
  | none => return default
  | some v => return (← toInt? v).getD default

/-- The choice given for a setting. -/
def Source.flag (s : Source) (key : String) (default : Bool) : Except Fault Bool := do
  match ← s.find key with
  | none => return default
  | some v => return toFlag v

/-- The text given for a setting: any value, in words. -/
def Source.words (s : Source) (key : String) (default : Text) : Except Fault Text := do
  match ← s.find key with
  | none => return default
  | some v => return (← toWords? v).getD default

/-- The settings that a source gives. -/
def ofSource (s : Source) : Except Fault Settings := do
  let standard : Settings := {}
  return {
    hintWindow := ← s.int "hint_window" standard.hintWindow
    editContextLines := ← s.int "edit_context_lines" standard.editContextLines
    diffContextBefore := ← s.int "diff_context_before" standard.diffContextBefore
    diffContextAfter := ← s.int "diff_context_after" standard.diffContextAfter
    createPreviewLines := ← s.int "create_preview_lines" standard.createPreviewLines
    singleBlockNotice := ← s.flag "single_block_notice" standard.singleBlockNotice
    recordMetrics := ← s.flag "record_metrics" standard.recordMetrics
    metricsDir := ← s.words "metrics_dir" standard.metricsDir
    logDir := ← s.words "log_dir" standard.logDir }

end Settings

end Amend
