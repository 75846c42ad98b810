/-
Amend.Tool.Description — how the tools present themselves to a caller.

Each tool has a name, a description and a schema of its parameters, given
as a value that can be written as JSON.
-/
import Amend.Tool.Basic

namespace Amend.Tool

/-- What a tool is for, in words. -/
def description : Tool → String
  | edit =>
    "Edit a code file using smart search-and-replace with fuzzy matching. " ++
    "Tries exact match first, then whitespace-tolerant, then token-based " ++
    "matching. Use empty old_string to create a new file. Always read the " ++
    "file first to confirm its contents before editing. Include 3-5 lines " ++
    "of context around the target text for uniqueness."
  | diff =>
    "Apply targeted code modifications using line-number-anchored " ++
    "SEARCH/REPLACE blocks. Supports multiple blocks in a single call for " ++
    "related changes to the same file. Each block uses :start_line: to " ++
    "narrow the search window for reliable matching. Always read the file " ++
    "first to get accurate line numbers."

/-- A parameter that is a text. -/
def textParameter (words : String) : Value :=
  .ofFields [("type", .ofString "string"), ("description", .ofString words)]

/-- The parameters of a tool, in order. -/
def parameters : Tool → List (String × Value)
  | edit =>
    [("file_path", textParameter
        "Path to the file to edit (relative or absolute). Use empty old_string to create a new file."),
     ("old_string", textParameter
        ("The text to find and replace. Whitespace-tolerant matching is attempted on failure. " ++
         "Use empty string to create a new file.")),
     ("new_string", textParameter
        "The replacement text, or the whole file content when creating a new file."),
     ("expected_replacements", .ofFields
        [("type", .ofString "integer"), ("minimum", .int 1),
         ("description", .ofString "Number of occurrences to replace. Defaults to 1.")])]
  | diff =>
    [("file_path", textParameter "Path to the file to modify (relative or absolute)."),
     ("diff", textParameter
        ("One or more SEARCH/REPLACE blocks:\n\n" ++
         "<<<<<<< SEARCH\n:start_line:42\n-------\n" ++
         "[exact content to find in the file]\n=======\n" ++
         "[new content to replace with]\n>>>>>>> REPLACE"))]

/-- The parameters a call cannot do without. -/
def required : Tool → List String
  | edit => ["file_path", "old_string", "new_string"]
  | diff => ["file_path", "diff"]

/-- The tool as it is described to a caller. -/
def definition (t : Tool) : Value :=
  .ofFields [("name", .text t.name), ("description", .ofString t.description),
    ("parameters", .ofFields [("type", .ofString "object"),
      ("properties", .ofFields t.parameters),
      ("required", .list (t.required.map Value.ofString))])]

end Amend.Tool
