/-
Amend.Command.Plan — lists of edits to be carried out in order.

A plan is a YAML list of requests, or a mapping that holds one as `edits`.
A request is a mapping; one that has a diff asks for its blocks, any other
for one search and replacement.
-/
import Amend.Tool.Basic
import Amend.Yaml.Document

namespace Amend.Command

/-- The requests of a plan. -/
abbrev Plan := List (List (Value × Value))

namespace Plan

/-- The items of the list that holds the requests: the document itself, or
what a mapping holds as `edits`. A mapping without such an entry has none. -/
def items? (d : Yaml.Document) : Option (List Yaml.NodeId) := do
  let root ← d.root
  match d.contents.entries? root with
  | none => d.contents.items? root
  | some es =>
    match d.contents.field? es "edits" with
    | some n => d.contents.items? n
    | none => some []

/-- The plan that a document is. Each request must be a mapping. -/
def ofDocument? (d : Yaml.Document) : Option Plan := do
  (← items? d).mapM d.contents.fields?

/-- Why a plan cannot be carried out. -/
inductive Failure where
  | unreadable (e : FileError)
  /-- It is no YAML document. -/
  | malformed
  | fault (f : Fault)

/-- The failure in words; a failure that is none of the plan's own is a
fault. -/
def Failure.message : Failure → Except Fault Text
  | unreadable e => .ok e.message
  | malformed => .ok "<YAML>"
  | fault f =>
    match f.kind with
    | .file _ | .value | .decoding => .ok f.message
    | _ => .error f

/-- The plan in a file. -/
def read (path : Text) (content : Except FileError Bytes) : Except Failure Plan :=
  match content with
  | .error e => .error (.unreadable e)
  | .ok b =>
    match Yaml.Document.read b with
    | .error .malformed => .error .malformed
    | .error (.fault f) => .error (.fault f)
    | .ok d =>
      match ofDocument? d with
      | some p => .ok p
      | none => .error (.fault (.badPlan path))

/-- The tool that a request asks for. -/
def toolFor (request : List (Value × Value)) : Tool :=
  if (Value.field? request "diff").isSome then .diff else .edit

/-- The path that a request names, in words; none if it has too many digits. -/
def pathShown? (request : List (Value × Value)) : Option Text :=
  ((Value.field? request "file_path").getD (.ofString "?")).shown?

end Plan

end Amend.Command
