/-
Amend.Settings.Load — the settings a command runs with.

A settings file that the user names is the only one looked for. Otherwise the
first file found counts, in the working directory and then in the home
directory. A file that cannot be read, or is no mapping, gives nothing.

  §1 Settings files.
  §2 Loading.
-/
import Amend.Host.Basic
import Amend.Path
import Amend.Settings
import Amend.Table
import Amend.Yaml.Document

namespace Amend.Settings

/-! ## §1 Settings files -/

/-- The names of settings files. -/
def fileNames : List Text := [".smartpatch.yaml", ".smartpatch.yml"]

/-- The paths a settings file may have, in the order they are looked at; an
empty path names no file. -/
def fileCandidates (given working home : Text) : List Text :=
  if given ≠ [] then [given]
  else [working, Path.homeDirectory home].flatMap fun dir => fileNames.map (Path.join dir)

/-- The data of a settings file. -/
def fileData (content : Except FileError Bytes) : Except Fault Value :=
  match content with
  | .error _ => .ok (.mapping [])
  | .ok b =>
    match Yaml.Document.read b with
    | .ok d => .ok (.mapping (d.fields?.getD []))
    | .error .malformed => .ok (.mapping [])
    | .error (.fault f) => .error f

/-! ## §2 Loading -/

/-- The first of some paths that is a file. -/
def firstFile? : List Text → Host (Option Text)
  | [] => return none
  | path :: paths => do if ← Host.ask (.isFile path) then return some path else firstFile? paths

/-- The value of a variable of the environment, empty if it has none. -/
def variableOrEmpty (name : Text) : Host Text := do
  return (← Host.ask (.variable name)).getD []

/-- The settings file that counts, if there is one. -/
def findFile (given : Text) : Host (Option Text) := do
  let working ← Host.ask .workingDirectory
  firstFile? (fileCandidates given working (← variableOrEmpty "HOME"))

/-- The data of the settings file that counts; without one, nothing is given. -/
def fileDataAt : Option Text → Host (Except Fault Value)
  | some path => do return fileData (← Host.ask (.read path))
  | none => return .ok (.mapping [])

/-- The variables that settings are looked for in, with their values. -/
def environmentOf : List String → Host (Table Text Text)
  | [] => return []
  | key :: keys => do
    let name := variableName key
    let value ← Host.ask (.variable name)
    let rest ← environmentOf keys
    match value with
    | some t => return (name, t) :: rest
    | none => return rest

/-- The names of the settings. -/
def keys : List String :=
  ["hint_window", "edit_context_lines", "diff_context_before", "diff_context_after",
   "create_preview_lines", "single_block_notice", "record_metrics", "metrics_dir", "log_dir"]

/-- The settings from the environment and the settings file that counts. -/
def load (given : Text) : Host (Except Fault Settings) := do
  let data ← fileDataAt (← findFile given)
  let environment ← environmentOf keys
  return data.bind fun d => ofSource ⟨environment.get?, d⟩

end Amend.Settings
