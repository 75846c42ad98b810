/-
Amend.Tool.Execute — calling a tool.

A refused request and a refused file operation become results of failure with
words for the caller. Only a fault ends the call without a result, and one may
arise on the way to it: a refusal is recorded with the path the request names,
which may be any value. If the settings ask for it, every result is logged.
-/
import Amend.Metric
import Amend.Tool.Diff
import Amend.Tool.Edit

namespace Amend.Tool

/-- Carries out a request whose arguments are a mapping. -/
def run (t : Tool) (w : Workplace) (args : List (Value × Value)) : Step ToolResult :=
  match t with
  | edit => EditTool.run w args
  | diff => DiffTool.run w args

/-- Carries out a request, unless it is cancelled before it starts. -/
def attempt (t : Tool) (w : Workplace) (args : Value) : Step ToolResult := do
  Step.checkCancelled
  match args with
  | .mapping es => run t w es
  | v => Step.refuse (.arguments v.kind t.name)

/-- The path a request names, for records; null if it names none. -/
def pathGiven (args : Value) : Value :=
  match args with
  | .mapping es => (Value.field? es "file_path").getD .null
  | _ => .null

/-- The result of a call that was refused. -/
def refusedResult (r : Refusal) : ToolResult := ⟨false, r.text, some r.code, .nothing⟩

/-- The result of a call whose file operation was refused. -/
def fileResult (path : Text) (e : FileError) : ToolResult :=
  ⟨false, "Failed to access " ++ path ++ ": " ++ e.message, some .io, .nothing⟩

/-- Answers with a result of failure, of which a record is made that names
the path. There is no record if a number in the path is too long to be written
out, and no result if the path is too deep. -/
def note (args : Value) (record : (path : Text) → Record) (r : ToolResult) :
    Action ToolQuery (Except Fault ToolResult) :=
  match Settings.toWords? (pathGiven args) with
  | .error f => return .error f
  | .ok none => return .ok r
  | .ok (some path) => do
    Action.query (.journal (record path))
    return .ok r

/-- Carries out a request and turns failures into results. A path that no
system has is a fault. -/
def settle (t : Tool) (w : Workplace) (args : Value) : Action ToolQuery (Except Fault ToolResult) := do
  match ← (attempt t w args).run with
  | .ok r => return .ok r
  | .error (.refused r) =>
    note args (fun path => ⟨.warning, .tools, "[" ++ t.tag ++ "] " ++ path ++ ": " ++ r.message⟩)
      (refusedResult r)
  | .error (.file e) =>
    if e.kind = .invalidPath then return .error (.file e)
    note args (fun path => ⟨.error, .tools,
        "[" ++ t.tag ++ "] I/O error on " ++ path ++ ": " ++ e.message⟩)
      (fileResult (pathGiven args).shown e)
  | .error (.fault f) => return .error f

/-- The entry a result is logged as. -/
def entry (t : Tool) (args : Value) (r : ToolResult) : List (Value × Value) :=
  let file : Value :=
    match pathGiven args with
    | .text path => .text path
    | _ => .text []
  let fields : List (String × Value) :=
    [("tool", .text t.name), ("file", file), ("success", .bool r.success),
     ("error_code", (r.code.map fun c => .ofString c.name).getD .null)] ++ r.details.fields
  fields.map fun (k, v) => (Value.ofString k, v)

/-- Logs a result if the settings ask for it. That a log cannot be written
is recorded, no more. -/
def log (t : Tool) (w : Workplace) (args : Value) (r : ToolResult) :
    Action ToolQuery (Except Fault Unit) := do
  if !w.settings.recordMetrics then return .ok ()
  let line := Metric.line (← Action.query .now) (entry t args r)
  match ← Action.query (.append (Metric.logPath w.base w.settings.metricsDir) (Utf8.encode line)) with
  | .ok () => return .ok ()
  | .error e =>
    if e.kind = .invalidPath then return .error (.file e)
    Action.query (.journal (Metric.writeFailure e))
    return .ok ()

/-- Calls a tool. -/
def execute (t : Tool) (w : Workplace) (args : Value) :
    Action ToolQuery (Except Fault ToolResult) := do
  match ← settle t w args with
  | .error f => return .error f
  | .ok r =>
    match ← log t w args r with
    | .error f => return .error f
    | .ok () => return .ok r

end Amend.Tool
