/-
Amend.Refusal — why an edit request is refused, and how to mend it.

Each cause is a constructor; its words, its code and the suggestions for
the caller are functions of it.
-/
import Amend.Block
import Amend.Matching
import Amend.Value.Display

namespace Amend

/-! ## §1 Causes and codes -/

/-- Why a request is refused. -/
inductive Refusal where
  /-- The arguments are no mapping but a value of this kind. -/
  | arguments (kind : String) (tool : Text)
  /-- There is no path; it is needed for this purpose. -/
  | noPath (purpose : Text)
  | noSearch
  | noReplacement
  | noDiff
  /-- Search and replacement are the same text. -/
  | identical
  /-- The number of occurrences to replace is not a positive integer. -/
  | count (shown : Text)
  /-- The file to edit is not there; `creating` tells that it could be created. -/
  | absent (path : Text) (creating : Bool)
  /-- The file to create is there. -/
  | present (path : Text)
  /-- No strategy found the expected number of places. -/
  | mismatch (target : Text) (m : Mismatch)
  | noSeparator (line : Nat)
  | noReplace (line : Nat)
  | emptySearch (line : Nat)
  | noBlocks
  /-- No block of a request could be put in, for these reasons. -/
  | allFailed (path : Text) (reasons : List Text)
  | cancelled
  deriving DecidableEq, Repr

/-- The codes callers tell refusals apart by. -/
inductive Code where
  | input
  | precondition
  | notFound
  | countMismatch
  | parse
  | noBlocks
  | allFailed
  | cancelled
  | io
  deriving DecidableEq, Repr

/-- A code as it is written. -/
def Code.name : Code → String
  | input => "E_INPUT"
  | precondition => "E_PRECONDITION"
  | notFound => "E_NOT_FOUND"
  | countMismatch => "E_COUNT_MISMATCH"
  | parse => "E_PARSE"
  | noBlocks => "E_NO_BLOCKS"
  | allFailed => "E_ALL_FAILED"
  | cancelled => "E_CANCELLED"
  | io => "E_IO"

/-- A message with numbered suggestions after it, if there are any. -/
def withSuggestions (message : Text) (suggestions : List Text) : Text :=
  if suggestions = [] then message
  else
    message ++ "\n\n<error_details>\nRecovery suggestions:\n" ++
      Text.unlines (suggestions.mapIdx fun i s => Text.ofNat (i + 1) ++ ". " ++ s) ++
      "\n</error_details>"

namespace Refusal

/-- The code of a refusal. -/
def code : Refusal → Code
  | arguments .. | noPath _ | noSearch | noReplacement | noDiff | identical | count _ => .input
  | absent .. | present _ => .precondition
  | mismatch _ m => if m.isMiss then .notFound else .countMismatch
  | noSeparator _ | noReplace _ | emptySearch _ => .parse
  | noBlocks => .noBlocks
  | allFailed .. => .allFailed
  | cancelled => .cancelled

/-! ## §2 Words -/

/-- How the words about a block that cannot be read begin. -/
def invalidBlock (line : Nat) (missing : Text) : Text :=
  "Failed to parse diff: invalid diff block starting at line " ++ Text.ofNat line ++
    ": missing " ++ missing

/-- What was refused. -/
def message : Refusal → Text
  | arguments kind _ => "Invalid arguments: expected an object, got " ++ Text.ofString kind
  | noPath _ => "Missing required parameter: file_path"
  | noSearch => "Missing required parameter: old_string"
  | noReplacement => "Missing required parameter: new_string"
  | noDiff => "Missing required parameter: diff"
  | identical =>
    "No changes to apply: old_string and new_string are identical " ++
      "(after normalizing line endings)"
  | count shown => "Invalid expected_replacements: " ++ shown
  | absent path _ => "File does not exist: " ++ path
  | present path => "File already exists: " ++ path
  | mismatch target m =>
    if m.isMiss then "No match found in " ++ target
    else
      "Occurrence count mismatch in " ++ target ++ ": expected " ++ Text.ofInt m.expected ++
        (if m.exact ≠ 0 then " but found " ++ Text.ofNat m.exact ++ " exact match(es)"
         else ", found " ++ Text.ofNat m.whitespace ++ " (whitespace-tolerant) and " ++
          Text.ofNat m.tokens ++ " (token-based)")
  | noSeparator line => invalidBlock line (Marker.separator.text ++ " separator")
  | noReplace line => invalidBlock line (Marker.replace.text ++ " marker")
  | emptySearch line =>
    "Failed to parse diff: block starting at line " ++ Text.ofNat line ++
      " has empty search content"
  | noBlocks => "No SEARCH/REPLACE blocks found in diff"
  | allFailed path reasons =>
    "All " ++ Text.ofNat reasons.length ++ " diff block(s) failed to apply to " ++ path ++ ":\n" ++
      Text.unlines reasons
  | cancelled => "Operation aborted"

/-- The form a block must have. -/
def formatHints : List Text :=
  ["Ensure each block follows the format: <<<<<<< SEARCH / :start_line:N / " ++
    "------- / [search] / ======= / [replace] / >>>>>>> REPLACE",
   "Check for missing markers or mismatched blocks"]

/-- What the caller can do. -/
def suggestions : Refusal → List Text
  | arguments _ tool => ["Call " ++ tool ++ " with an object of named parameters"]
  | noPath purpose => ["Provide the path to the file you want to " ++ purpose]
  | noSearch => ["Provide the text to replace, or an empty string to create a file"]
  | noReplacement => ["Provide the replacement text"]
  | noDiff => ["Provide at least one SEARCH/REPLACE block"]
  | identical =>
    ["Update new_string to the intended replacement text",
     "If you intended to verify file state only, use read instead"]
  | count _ => ["expected_replacements must be a positive integer (default 1)"]
  | absent _ creating =>
    if creating then
      ["Verify the file path is correct",
       "If you intended to create a new file, set old_string to an empty string",
       "Use read or find to confirm the correct path"]
    else
      ["Verify the file path is correct",
       "Use read or find to confirm the correct path"]
  | present _ =>
    ["To modify an existing file, provide a non-empty old_string " ++
      "that matches the current file contents",
     "Use read to confirm the exact text to match",
     "If you intended to overwrite the entire file, use a write tool instead"]
  | mismatch _ m =>
    if m.isMiss then
      ["Use read to confirm the file's current contents",
       "Ensure old_string matches exactly (including whitespace/indentation)",
       "Provide more surrounding context in old_string to make the match unique",
       "If the file has changed since you last read it, re-read and retry"]
    else if m.exact ≠ 0 then
      ["Provide a more specific old_string so it matches exactly the expected number of times",
       "If you intend to replace all occurrences, set expected_replacements to " ++
        Text.ofNat m.exact,
       "Use read to confirm the exact text and counts"]
    else
      ["Provide more surrounding context in old_string to make the match unique",
       "If multiple replacements are intended, adjust expected_replacements",
       "Use read to confirm the current file contents and refine the match"]
  | noSeparator _ | noReplace _ => formatHints
  | emptySearch _ =>
    ["Every SEARCH section must contain the text to replace",
     "To create a file, use code_edit with an empty old_string"]
  | noBlocks =>
    ["Include at least one <<<<<<< SEARCH ... >>>>>>> REPLACE block",
     "Check the diff format: each block needs SEARCH, =======, and REPLACE markers"]
  | allFailed .. =>
    ["Use read to confirm the file's current contents and line numbers",
     "Ensure the search content matches exactly (including whitespace/indentation)",
     "Verify :start_line: values are accurate",
     "If the file has changed, re-read and rebuild the diff"]
  | cancelled => []

/-- The refusal with its suggestions. -/
def text (r : Refusal) : Text := withSuggestions r.message r.suggestions

end Refusal

/-! ## §3 Failures of a request -/

/-- How a request can fail: it is refused, a file operation is refused, or
the program stops. -/
inductive Failure where
  | refused (r : Refusal)
  | file (e : FileError)
  | fault (f : Fault)
  deriving DecidableEq, Repr

/-- A request that cannot be read, as a failure. A hint of too many digits
stops the program. -/
def BlockError.failure : BlockError → Failure
  | noSeparator line => .refused (.noSeparator line)
  | noReplace line => .refused (.noReplace line)
  | emptySearch line => .refused (.emptySearch line)
  | noBlocks => .refused .noBlocks
  | longHint digits => .fault (.tooManyDigits digits)

end Amend
