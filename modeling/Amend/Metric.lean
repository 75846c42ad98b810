/-
Amend.Metric — the log of edits and the figures drawn from it.

Each edit is logged as one line of JSON. The figures look at the newest
entries only: how many edits succeeded, how many were only partly applied,
and which strategies were used. Lines that are no JSON are passed over; a
line that is JSON but no entry stops the reading.

  §1 The log.
  §2 Reading entries.
  §3 Figures.
-/
import Amend.Fault
import Amend.Journal
import Amend.Path
import Amend.Text.Stream
import Amend.Value.Json

namespace Amend.Metric

/-! ## §1 The log -/

/-- Where edits are logged, under a directory of a project. -/
def logPath (project dir : Text) : Text :=
  Path.join (Path.join project dir) "edit_metrics.jsonl"

/-- The line that is logged for an entry made at a time. -/
def line (time : Text) (entry : List (Value × Value)) : Text :=
  let stamped := entry.foldl (fun es e => Value.put es e.1 e.2)
    [(Value.ofString "timestamp", .text time)]
  Json.write (.mapping stamped) ++ [lf]

/-- A log that could not be written. -/
def writeFailure (e : FileError) : Record :=
  ⟨.warning, .metrics, "[Metrics] Failed to write metrics: " ++ e.message⟩

/-- A log that could not be read. -/
def readFailure (e : FileError) : Record :=
  ⟨.warning, .metrics, "[Metrics] Failed to read metrics: " ++ e.message⟩

/-! ## §2 Reading entries -/

/-- The values in lines of a log. Empty lines and lines that are no JSON are
passed over; a number too long to convert is not, nor one value inside too
many others. -/
def valuesOf : List Text → Except Fault (List Value)
  | [] => .ok []
  | l :: ls =>
    let l := Text.trim l
    if l = [] then valuesOf ls
    else
      match Json.read l with
      | .ok v => (valuesOf ls).map (v :: ·)
      | .error .malformed => valuesOf ls
      | .error (.tooLong n) => .error (.tooManyDigits n)
      | .error (.tooDeep mapping) =>
        .error (.tooDeep (" while decoding a JSON " ++ (if mapping then "object" else "array") ++
          " from a unicode string"))

/-- The values in the bytes of a log. Of a log that is not UTF-8 the whole
lines are read up to the piece that shows it. -/
def values (log : Bytes) : Except Fault (List Value) := do
  match Stream.read log with
  | (t, none) => valuesOf (Text.lines t)
  | (t, some m) =>
    let _ ← valuesOf (Text.lines t).dropLast
    throw (.malformed m)

/-- The newest `n` values of a log; a number below one counts from the other
end, zero takes all. -/
def newest (n : Int) (vs : List Value) : List Value := Text.part vs (-n) vs.length

/-! ## §3 Figures -/

/-- What the newest entries amount to; rates are percentages. -/
structure Figures where
  total : Nat
  success : Binary64
  partly : Binary64
  fallback : Binary64
  strategies : List (Value × Binary64)
  deriving Repr

/-- A part of a whole in per cent: the quotient is rounded, then its
hundredfold. -/
def percent (part whole : Nat) : Binary64 :=
  Binary64.mul (Binary64.ofRatio false part whole) (Binary64.ofInt 100)

/-- The fields of an entry. -/
def fieldsOf (v : Value) : Except Fault (List (Value × Value)) :=
  match v with
  | .mapping es => .ok es
  | v => .error (.noFields v.kind "get")

/-- Whether an entry is one of success. -/
def succeeded (es : List (Value × Value)) : Bool :=
  ((Value.field? es "success").getD (.bool false)).truthy

/-- Whether an entry is one of partial success: fewer blocks applied than
there were. -/
def isPartial (es : List (Value × Value)) : Except Fault Bool :=
  if succeeded es then
    let field (key : String) := (Value.field? es key).getD (.int 0)
    (Value.less (field "blocks_applied") (field "blocks_total")).mapError fun u =>
      .unordered u.left u.right
  else .ok false

/-- Counts a value that names something, as the first one like it. -/
def tally : List (Value × Nat) → Value → List (Value × Nat)
  | [], v => [(v, 1)]
  | (w, n) :: r, v => if Value.same w v then (w, n + 1) :: r else (w, n) :: tally r v

/-- The values with how often each occurs, the most frequent first and those
alike in the order they first came. -/
def ranking (vs : List Value) : List (Value × Nat) :=
  (vs.foldl tally []).mergeSort fun a b => b.2 ≤ a.2

/-- The figures of entries. -/
def figures (entries : List Value) : Except Fault Figures := do
  if entries = [] then
    let zero := Binary64.zero false
    return ⟨0, zero, zero, zero, []⟩
  else
    let total := entries.length
    let fields ← entries.mapM fieldsOf
    let successes := fields.countP succeeded
    let partials := (← fields.mapM isPartial).count true
    let named := (fields.filterMap fun es => Value.field? es "strategy").filter Value.truthy
    let fallbacks := named.countP fun s => !Value.same s (.ofString "exact")
    match named.find? fun s => !s.isKey with
    | some s => throw (.noKey s.kind)
    | none =>
      return {
        total
        success := percent successes total
        partly := percent partials total
        fallback := if named = [] then Binary64.zero false else percent fallbacks named.length
        strategies := (ranking named).map fun (s, n) => (s, percent n named.length) }

/-- The figures of the newest `n` entries of a log. -/
def figuresOf (log : Bytes) (n : Int) : Except Fault Figures := do
  figures (newest n (← values log))

end Amend.Metric
