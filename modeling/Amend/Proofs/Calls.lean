/-
Amend.Proofs.Calls — the courses a call of a tool can take.

Both tools edit a file in the same way: they look whether it is there, read
it, decide on what they read, and write it at most once. This way is a
program of its own here (`Step.onFile`), with what is decided as a
parameter, and each tool is shown to be it. Its runs take one of nine
courses (`onFile_course`); a call of a tool takes one of these, creates a
file, or ends before it has touched any (`run_attempt`, `run_execute`).

  §1 Editing a file that is there.
  §2 The decisions of the two tools.
  §3 Reading requests and creating files.
  §4 Calls.
-/
import Amend.Proofs.Runs
import Amend.Tool.Execute

namespace Amend

/-! ## §1 Editing a file that is there -/

/-- What a tool decides once it has read a file. -/
inductive Decision where
  | refuse (why : Failure)
  | keep (answer : ToolResult)
  | rewrite (content : Except Utf8.Unencodable Bytes) (note : Record) (answer : ToolResult)

/-- Edits the file at `place` as is decided on its content. -/
def Step.onFile (place : Text) (absent : Refusal) (records : Bytes → List Record)
    (decide : Bytes → Decision) : Step ToolResult := do
  if !(← Step.ask (.has place)) then Step.refuse absent
  let raw ← Step.demand (.read place)
  Step.checkCancelled
  Step.journal (records raw)
  match decide raw with
  | .refuse why => throw why
  | .keep answer => return answer
  | .rewrite content note answer =>
    Step.checkCancelled
    Step.writeBytes place content
    Step.journal [note]
    return answer

/-- The event leaves a record, and no file is asked for. -/
def Event.isRecord : Event → Bool
  | .journal _ | .now _ | .append .. => true
  | _ => false

/-- The events without those that leave records. -/
def quiet (es : List Event) : List Event := es.filter fun e => !e.isRecord

@[simp] theorem quiet_append (es fs : List Event) : quiet (es ++ fs) = quiet es ++ quiet fs :=
  List.filter_append ..

@[simp] theorem quiet_journal (rs : List Record) : quiet (rs.map .journal) = [] := by
  simp [quiet, Event.isRecord]

/-- How the editing of a file that should be there can go, records apart. -/
inductive Course (place : Text) (absent : Refusal) (decide : Bytes → Decision) :
    List Event → Except Failure ToolResult → Prop
  | absent : Course place absent decide [.has place false] (.error (.refused absent))
  | unread (e : FileError) :
      Course place absent decide [.has place true, .read place (.error e)] (.error (.file e))
  | cancelledEarly (raw : Bytes) :
      Course place absent decide [.has place true, .read place (.ok raw), .cancelled true]
        (.error (.refused .cancelled))
  | refused {raw : Bytes} {why : Failure} (decided : decide raw = .refuse why) :
      Course place absent decide [.has place true, .read place (.ok raw), .cancelled false]
        (.error why)
  | kept {raw : Bytes} {answer : ToolResult} (decided : decide raw = .keep answer) :
      Course place absent decide [.has place true, .read place (.ok raw), .cancelled false]
        (.ok answer)
  | cancelledLate {raw : Bytes} {content : Except Utf8.Unencodable Bytes} {note : Record}
      {answer : ToolResult} (decided : decide raw = .rewrite content note answer) :
      Course place absent decide
        [.has place true, .read place (.ok raw), .cancelled false, .cancelled true]
        (.error (.refused .cancelled))
  | unencoded {raw : Bytes} {u : Utf8.Unencodable} {note : Record} {answer : ToolResult}
      (decided : decide raw = .rewrite (.error u) note answer) :
      Course place absent decide
        [.has place true, .read place (.ok raw), .cancelled false, .cancelled false]
        (.error (.fault (.unencodable u)))
  | unwritten {raw content : Bytes} {note : Record} {answer : ToolResult}
      (decided : decide raw = .rewrite (.ok content) note answer) (e : FileError) :
      Course place absent decide
        [.has place true, .read place (.ok raw), .cancelled false, .cancelled false,
          .write place content (.error e)] (.error (.file e))
  | written {raw content : Bytes} {note : Record} {answer : ToolResult}
      (decided : decide raw = .rewrite (.ok content) note answer) :
      Course place absent decide
        [.has place true, .read place (.ok raw), .cancelled false, .cancelled false,
          .write place content (.ok ())] (.ok answer)

theorem onFile_course {place : Text} {absent : Refusal} {records : Bytes → List Record}
    {decide : Bytes → Decision} {es : List Event} {out : Except Failure ToolResult}
    (h : Run (Step.onFile place absent records decide).run es out) :
    Course place absent decide (quiet es) out := by
  obtain ⟨there, es₁, rfl, h₁⟩ := Step.run_ask_bind_iff.mp h
  cases there with
  | false =>
    obtain ⟨rfl, rfl⟩ := Step.run_throw_iff.mp h₁
    exact .absent
  | true =>
    obtain ⟨e, rfl, rfl⟩ | ⟨raw, es₂, rfl, h₂⟩ := Step.run_demand_bind_iff.mp h₁
    · exact .unread e
    obtain ⟨rfl, rfl⟩ | ⟨es₃, rfl, h₃⟩ := Step.run_checkCancelled_bind_iff.mp h₂
    · exact .cancelledEarly raw
    obtain ⟨es₄, rfl, h₄⟩ := Step.run_journal_bind_iff.mp h₃
    -- the records come between the two checks, where no file is asked for
    change Course place absent decide (.has place true :: .read place (.ok raw) ::
      .cancelled false :: quiet ((records raw).map .journal ++ es₄)) out
    rw [quiet_append, quiet_journal, List.nil_append]
    cases hdecided : decide raw with
    | refuse why =>
      simp only [hdecided] at h₄
      obtain ⟨rfl, rfl⟩ := Step.run_throw_iff.mp h₄
      exact .refused hdecided
    | keep answer =>
      simp only [hdecided] at h₄
      obtain ⟨rfl, rfl⟩ := Step.run_pure_iff.mp h₄
      exact .kept hdecided
    | rewrite content note answer =>
      simp only [hdecided] at h₄
      obtain ⟨rfl, rfl⟩ | ⟨es₅, rfl, h₅⟩ := Step.run_checkCancelled_bind_iff.mp h₄
      · exact .cancelledLate hdecided
      cases content with
      | error u =>
        obtain ⟨rfl, rfl⟩ := Step.run_throw_iff.mp h₅
        exact .unencoded hdecided
      | ok content =>
        obtain ⟨e, rfl, rfl⟩ | ⟨_, es₆, rfl, h₆⟩ := Step.run_demand_bind_iff.mp h₅
        · exact .unwritten hdecided e
        obtain ⟨es₇, rfl, h₇⟩ := Step.run_journal_bind_iff.mp h₆
        obtain ⟨rfl, rfl⟩ := Step.run_pure_iff.mp h₇
        exact .written hdecided

/-! ## §2 The decisions of the two tools -/

namespace EditTool

/-- The failure of a request that no strategy could carry out. -/
def mismatchFailure (path : Text) (m : Mismatch) : Failure :=
  if m.isMiss || (Value.int m.expected).display?.isSome then .refused (.mismatch path m)
  else .fault .tooLongNumber

/-- What an edit decides on the content of its file. -/
def decide (w : Workplace) (r : Request) (raw : Bytes) : Decision :=
  let text := Utf8.decode raw
  let content := LineEnding.normalize text
  let replacement := LineEnding.normalize r.replacement
  match resolveEdit content (LineEnding.normalize r.search) replacement r.expected with
  | .error m => .refuse (mismatchFailure r.path m)
  | .ok e =>
    let details := Details.replaced e.found.strategy e.found.count
    if e.content = content then .keep ⟨true, "No changes needed for " ++ r.path, none, details⟩
    else
      .rewrite (Utf8.tryEncode (LineEnding.restore e.content (LineEnding.detect text)))
        ⟨.info, .tools, "[CodeEdit] Edited " ++ r.path ++ ": " ++ Text.ofNat e.found.count ++
          " replacement(s) via " ++ Text.ofString e.found.strategy.name⟩
        ⟨true, report w r replacement e, none, details⟩

theorem refuseMismatch_eq (path : Text) (m : Mismatch) :
    refuseMismatch path m = throw (mismatchFailure path m) := by
  rw [refuseMismatch, mismatchFailure]
  split <;> rfl

/-- An edit is the editing of a file, unless it would change nothing. -/
theorem edit_eq_onFile {w : Workplace} {r : Request} {place : Text}
    (h : LineEnding.normalize r.search ≠ LineEnding.normalize r.replacement) :
    edit w r place = Step.onFile place (.absent r.path true)
      (fun raw => resolveRecords (LineEnding.normalize (Utf8.decode raw))
        (LineEnding.normalize r.search) r.expected) (decide w r) := by
  simp only [edit, Step.onFile, if_neg h, Step.readText, Step.writeText, bind_assoc, pure_bind]
  congr 1
  funext there
  congr 1
  congr 1
  funext raw
  congr 1
  funext _
  congr 1
  funext _
  simp only [decide]
  cases resolveEdit (LineEnding.normalize (Utf8.decode raw)) (LineEnding.normalize r.search)
      (LineEnding.normalize r.replacement) r.expected with
  | error m => exact refuseMismatch_eq r.path m
  | ok e =>
    dsimp only
    split <;> rfl

end EditTool

namespace DiffTool

/-- What a request of blocks decides on the content of its file. -/
def decide (w : Workplace) (r : Request) (raw : Bytes) : Decision :=
  let text := Utf8.decode raw
  let content := LineEnding.normalize text
  let p := applyBlocks content w.settings.hintWindow r.blocks
  let details := Details.patched (overallStrategy p) p.outcomes.length p.applied
  if !p.succeeded then .refuse (.refused (.allFailed r.path (failures r.blocks p)))
  else if p.content = content then
    .keep ⟨true, "No changes needed for " ++ r.path, none, details⟩
  else
    .rewrite (Utf8.tryEncode (LineEnding.restore p.content (LineEnding.detect text)))
      ⟨.info, .tools, "[ApplyDiff] Applied " ++ Text.ofNat p.applied ++ "/" ++
        Text.ofNat p.outcomes.length ++ " block(s) to " ++ r.path⟩
      ⟨true, report w r p, none, details⟩

theorem apply_eq_onFile (w : Workplace) (r : Request) (place : Text) :
    apply w r place = Step.onFile place (.absent r.path false)
      (fun raw => applyRecords (LineEnding.normalize (Utf8.decode raw)) w.settings.hintWindow
        r.blocks) (decide w r) := by
  simp only [apply, Step.onFile, Step.readText, Step.writeText, bind_assoc, pure_bind]
  congr 1
  funext there
  congr 1
  congr 1
  funext raw
  congr 1
  funext _
  congr 1
  funext _
  simp only [decide]
  split
  · rfl
  · split <;> rfl

end DiffTool

/-! ## §3 Reading requests and creating files -/

/-- The failure is not that of a file operation. -/
def Failure.IsInput (why : Failure) : Prop := ∀ e, why ≠ .file e

/-- A path is given, or the request is refused. -/
theorem requirePath_eq (fields : List (Value × Value)) (purpose : Text) :
    (∃ path, Value.field? fields "file_path" = some (.text path) ∧
      requirePath fields purpose = pure path) ∨
    requirePath fields purpose = throw (.refused (.noPath purpose)) := by
  rw [requirePath]
  split
  · rename_i path hpath
    split
    · exact .inr rfl
    · exact .inl ⟨path, hpath, rfl⟩
  · exact .inr rfl

namespace EditTool

theorem expectedCount_eq (v : Option Value) :
    (∃ n, 0 < n ∧ expectedCount v = pure n) ∨
      ∃ why, expectedCount v = throw why ∧ why.IsInput := by
  have hinvalid (v : Value) : ∃ why, expectedCount.invalid v = throw why ∧ why.IsInput := by
    rw [expectedCount.invalid]
    split
    · exact ⟨_, rfl, nofun⟩
    · exact ⟨_, rfl, nofun⟩
  have hpositive (v : Value) : (∃ n, 0 < n ∧ expectedCount.positive v = pure n) ∨
      ∃ why, expectedCount.positive v = throw why ∧ why.IsInput := by
    rw [expectedCount.positive.eq_def]
    split
    · exact .inl ⟨_, Nat.succ_pos _, rfl⟩
    · exact .inr (hinvalid v)
  rw [expectedCount.eq_def]
  split
  · exact .inl ⟨1, Nat.one_pos, rfl⟩
  · exact .inl ⟨1, Nat.one_pos, rfl⟩
  · split
    · exact hpositive _
    · exact .inr (hinvalid _)
  · exact hpositive _

/-- A request to edit has a path and two texts, and then comes to what its
number of occurrences does, or it is refused. -/
theorem readRequest_cases (fields : List (Value × Value)) :
    (∃ path search replacement, Value.field? fields "file_path" = some (.text path) ∧
      Value.field? fields "new_string" = some (.text replacement) ∧
      readRequest fields = (do
        let expected ← expectedCount (Value.field? fields "expected_replacements")
        return ⟨path, search, replacement, expected⟩)) ∨
      ∃ r, readRequest fields = throw (.refused r) := by
  obtain ⟨path, hfield, hpath⟩ | hpath := requirePath_eq fields "edit"
  · rw [readRequest, hpath, pure_bind]
    split
    · split
      · rename_i hreplacement
        exact .inl ⟨path, _, _, hfield, hreplacement, rfl⟩
      · exact .inr ⟨_, rfl⟩
    · exact .inr ⟨_, rfl⟩
  · rw [readRequest, hpath, Step.throw_bind]
    exact .inr ⟨_, rfl⟩

/-- A request to edit is read without a question being asked. -/
theorem readRequest_eq (fields : List (Value × Value)) :
    (∃ r, readRequest fields = pure r ∧ Value.field? fields "file_path" = some (.text r.path) ∧
      Value.field? fields "new_string" = some (.text r.replacement) ∧
      expectedCount (Value.field? fields "expected_replacements") = pure r.expected ∧
      0 < r.expected) ∨
      ∃ why, readRequest fields = throw why ∧ why.IsInput := by
  obtain ⟨path, search, replacement, hpath, hreplacement, hread⟩ | ⟨r, hread⟩ :=
    readRequest_cases fields
  · obtain ⟨n, hpos, hn⟩ | ⟨why, hwhy, hinput⟩ :=
      expectedCount_eq (Value.field? fields "expected_replacements")
    · rw [hn, pure_bind] at hread
      exact .inl ⟨_, hread, hpath, hreplacement, hn, hpos⟩
    · rw [hwhy, Step.throw_bind] at hread
      exact .inr ⟨why, hread, hinput⟩
  · exact .inr ⟨_, hread, nofun⟩

theorem readRequest_injective {fields : List (Value × Value)} {r r' : Request}
    (h : readRequest fields = pure r) (h' : readRequest fields = pure r') : r = r' := by
  rw [h] at h'
  cases h'
  rfl

/-- A request that says nothing of a number expects one occurrence. -/
theorem readRequest_of_fields {fields : List (Value × Value)} {path search replacement : Text}
    (hpath : Value.field? fields "file_path" = some (.text path)) (hname : Text.trim path ≠ [])
    (hsearch : Value.field? fields "old_string" = some (.text search))
    (hreplacement : Value.field? fields "new_string" = some (.text replacement))
    (hcount : Value.field? fields "expected_replacements" = none) :
    readRequest fields = pure ⟨path, search, replacement, 1⟩ := by
  simp only [readRequest, requirePath, hpath, hsearch, hreplacement, hcount, if_neg hname]
  rfl

theorem expected_pos {fields : List (Value × Value)} {r : Request}
    (h : readRequest fields = pure r) : 0 < r.expected := by
  obtain ⟨r', hr', -, -, -, hpos⟩ | ⟨why, hwhy, -⟩ := readRequest_eq fields
  · rwa [readRequest_injective h hr']
  · cases h.symm.trans hwhy

/-- The answer when a file was created. -/
def creation (w : Workplace) (r : Request) : ToolResult where
  success := true
  text := "Created new file: " ++ r.path ++ " (" ++ Text.ofNat (Text.lines r.replacement).length ++
    " lines)\n\n" ++ Excerpt.preview r.replacement w.settings.createPreviewLines
  code := none
  details := .created

/-- How the creation of a file can go, records apart. -/
inductive Creation (w : Workplace) (r : Request) (place : Text) :
    List Event → Except Failure ToolResult → Prop
  | present : Creation w r place [.has place true] (.error (.refused (.present r.path)))
  | cancelled :
      Creation w r place [.has place false, .cancelled true] (.error (.refused .cancelled))
  | undirected (e : FileError) :
      Creation w r place
        [.has place false, .cancelled false, .makeDirs (Path.directory place) (.error e)]
        (.error (.file e))
  | unencoded {u : Utf8.Unencodable} (unwritable : Utf8.tryEncode r.replacement = .error u) :
      Creation w r place
        [.has place false, .cancelled false, .makeDirs (Path.directory place) (.ok ())]
        (.error (.fault (.unencodable u)))
  | unwritten {content : Bytes} (encoded : Utf8.tryEncode r.replacement = .ok content)
      (e : FileError) :
      Creation w r place
        [.has place false, .cancelled false, .makeDirs (Path.directory place) (.ok ()),
          .write place content (.error e)] (.error (.file e))
  | created {content : Bytes} (encoded : Utf8.tryEncode r.replacement = .ok content) :
      Creation w r place
        [.has place false, .cancelled false, .makeDirs (Path.directory place) (.ok ()),
          .write place content (.ok ())] (.ok (creation w r))

theorem create_course {w : Workplace} {r : Request} {place : Text} {es : List Event}
    {out : Except Failure ToolResult} (h : Run (create w r place).run es out) :
    Creation w r place (quiet es) out := by
  obtain ⟨there, es₁, rfl, h₁⟩ := Step.run_ask_bind_iff.mp h
  cases there with
  | true =>
    obtain ⟨rfl, rfl⟩ := Step.run_throw_iff.mp h₁
    exact .present
  | false =>
    obtain ⟨rfl, rfl⟩ | ⟨es₂, rfl, h₂⟩ := Step.run_checkCancelled_bind_iff.mp h₁
    · exact .cancelled
    obtain ⟨e, rfl, rfl⟩ | ⟨_, es₃, rfl, h₃⟩ := Step.run_demand_bind_iff.mp h₂
    · exact .undirected e
    rw [Step.writeText] at h₃
    cases hencoded : Utf8.tryEncode r.replacement with
    | error u =>
      rw [hencoded] at h₃
      obtain ⟨rfl, rfl⟩ := Step.run_throw_iff.mp h₃
      exact .unencoded hencoded
    | ok content =>
      rw [hencoded] at h₃
      obtain ⟨e, rfl, rfl⟩ | ⟨_, es₄, rfl, h₄⟩ := Step.run_demand_bind_iff.mp h₃
      · exact .unwritten hencoded e
      obtain ⟨es₅, rfl, h₅⟩ := Step.run_journal_bind_iff.mp h₄
      obtain ⟨rfl, rfl⟩ := Step.run_pure_iff.mp h₅
      exact .created hencoded

end EditTool

namespace DiffTool

/-- A request of blocks has a path and a text, and then comes to what the text
is read as, or it is refused. -/
theorem readRequest_cases (fields : List (Value × Value)) :
    (∃ path diff, Value.field? fields "file_path" = some (.text path) ∧
      Value.field? fields "diff" = some (.text diff) ∧
      readRequest fields = match readBlocks diff with
        | .error e => throw e.failure
        | .ok blocks => do Step.journal (blockRecords blocks); return ⟨path, blocks⟩) ∨
      ∃ r, readRequest fields = throw (.refused r) := by
  obtain ⟨path, hfield, hpath⟩ | hpath := requirePath_eq fields "modify"
  · rw [readRequest, hpath, pure_bind]
    split
    · rename_i diff hdiff
      dsimp only
      split
      · exact .inr ⟨_, rfl⟩
      · exact .inl ⟨path, diff, hfield, hdiff, rfl⟩
    · exact .inr ⟨_, rfl⟩
  · rw [readRequest, hpath, Step.throw_bind]
    exact .inr ⟨_, rfl⟩

/-- A request of blocks is read before any file is asked for. -/
theorem readRequest_eq (fields : List (Value × Value)) :
    (∃ path diff blocks, Value.field? fields "file_path" = some (.text path) ∧
      Value.field? fields "diff" = some (.text diff) ∧ readBlocks diff = .ok blocks ∧
      readRequest fields = (do Step.journal (blockRecords blocks); return ⟨path, blocks⟩)) ∨
    ∃ why, readRequest fields = throw why ∧ why.IsInput := by
  obtain ⟨path, diff, hpath, hdiff, hread⟩ | ⟨r, hread⟩ := readRequest_cases fields
  · cases hblocks : readBlocks diff with
    | error e =>
      rw [hblocks] at hread
      exact .inr ⟨e.failure, hread, by cases e <;> nofun⟩
    | ok blocks =>
      rw [hblocks] at hread
      exact .inl ⟨path, diff, blocks, hpath, hdiff, hblocks, hread⟩
  · exact .inr ⟨_, hread, nofun⟩

end DiffTool

/-! ## §4 Calls -/

namespace Tool

/-- The arguments are refused, before any file is asked for. -/
inductive Rejects : Tool → Value → Failure → Prop
  | arguments {t : Tool} {args : Value} (unread : ∀ fields, args ≠ .mapping fields) :
      Rejects t args (.refused (.arguments args.kind t.name))
  | edit {fields : List (Value × Value)} {why : Failure}
      (unread : EditTool.readRequest fields = throw why) : Rejects .edit (.mapping fields) why
  | identical {fields : List (Value × Value)} {r : EditTool.Request}
      (request : EditTool.readRequest fields = pure r) (search : r.search ≠ [])
      (same : LineEnding.normalize r.search = LineEnding.normalize r.replacement) :
      Rejects .edit (.mapping fields) (.refused .identical)
  | diff {fields : List (Value × Value)} {why : Failure}
      (unread : DiffTool.readRequest fields = throw why) : Rejects .diff (.mapping fields) why

variable {w : Workplace} {t : Tool} {args : Value}

/-- Of a rejected request an attempt looks at the signal alone. -/
theorem attempt_of_rejects {why : Failure} (h : Rejects t args why) :
    attempt t w args = (do Step.checkCancelled; throw why) := by
  cases h with
  | arguments unread =>
    cases args with
    | mapping fields => exact absurd rfl (unread fields)
    | _ => rfl
  | edit unread => rw [attempt]; simp only [run, EditTool.run, unread, Step.throw_bind]
  | identical request search same =>
    rw [attempt]
    simp only [run, EditTool.run, request, pure_bind, if_neg search, EditTool.edit, if_pos same]
    rfl
  | diff unread => rw [attempt]; simp only [run, DiffTool.run, unread, Step.throw_bind]

/-- A request that names no file is rejected. -/
theorem rejects_of_unnamed (t : Tool) {fields : List (Value × Value)}
    (h : ∀ path, Value.field? fields "file_path" ≠ some (.text path)) :
    ∃ r, Rejects t (.mapping fields) (.refused r) := by
  have hpath (purpose : Text) :
      requirePath fields purpose = throw (.refused (.noPath purpose)) := by
    rw [requirePath]
    split
    · rename_i path hpath
      exact absurd hpath (h path)
    · rfl
  cases t with
  | edit => exact ⟨_, .edit (by rw [EditTool.readRequest, hpath, Step.throw_bind])⟩
  | diff => exact ⟨_, .diff (by rw [DiffTool.readRequest, hpath, Step.throw_bind])⟩

/-- How a call can go until its result is settled, records apart: it is
cancelled or its arguments are refused before a file is touched, or it
creates a file, edits one, or puts blocks into one. -/
inductive Attempt (w : Workplace) :
    Tool → Value → List Event → Except Failure ToolResult → Prop
  | cancelled {t : Tool} {args : Value} :
      Attempt w t args [.cancelled true] (.error (.refused .cancelled))
  | rejected {t : Tool} {args : Value} {why : Failure} (input : why.IsInput)
      (rejects : Rejects t args why) : Attempt w t args [.cancelled false] (.error why)
  | created {fields : List (Value × Value)} {r : EditTool.Request} {es : List Event}
      {out : Except Failure ToolResult} (request : EditTool.readRequest fields = pure r)
      (path : Value.field? fields "file_path" = some (.text r.path)) (search : r.search = [])
      (course : EditTool.Creation w r (Path.resolve w.home w.base r.path) es out) :
      Attempt w .edit (.mapping fields) (.cancelled false :: es) out
  | edited {fields : List (Value × Value)} {r : EditTool.Request} {es : List Event}
      {out : Except Failure ToolResult} (request : EditTool.readRequest fields = pure r)
      (path : Value.field? fields "file_path" = some (.text r.path)) (search : r.search ≠ [])
      (differs : LineEnding.normalize r.search ≠ LineEnding.normalize r.replacement)
      (expects : 0 < r.expected)
      (course : Course (Path.resolve w.home w.base r.path) (.absent r.path true)
        (EditTool.decide w r) es out) :
      Attempt w .edit (.mapping fields) (.cancelled false :: es) out
  | patched {fields : List (Value × Value)} {path diff : Text} {blocks : List Block}
      {es : List Event} {out : Except Failure ToolResult}
      (path_given : Value.field? fields "file_path" = some (.text path))
      (diff_given : Value.field? fields "diff" = some (.text diff))
      (blocks_read : readBlocks diff = .ok blocks)
      (course : Course (Path.resolve w.home w.base path) (.absent path false)
        (DiffTool.decide w ⟨path, blocks⟩) es out) :
      Attempt w .diff (.mapping fields) (.cancelled false :: es) out

theorem run_editTool {w : Workplace} {fields : List (Value × Value)} {es : List Event}
    {out : Except Failure ToolResult} (h : Run (EditTool.run w fields).run es out) :
    Attempt w .edit (.mapping fields) (.cancelled false :: quiet es) out := by
  obtain ⟨r, hr, hpath, -, -, hpos⟩ | ⟨why, hwhy, hinput⟩ := EditTool.readRequest_eq fields
  · rw [EditTool.run, hr, pure_bind] at h
    dsimp only at h
    split at h
    · rename_i hsearch
      exact .created hr hpath hsearch (EditTool.create_course h)
    · rename_i hsearch
      by_cases hsame : LineEnding.normalize r.search = LineEnding.normalize r.replacement
      · rw [EditTool.edit] at h
        simp only [if_pos hsame] at h
        obtain ⟨rfl, rfl⟩ := Step.run_throw_iff.mp h
        exact .rejected nofun (.identical hr hsearch hsame)
      · rw [EditTool.edit_eq_onFile hsame] at h
        exact .edited hr hpath hsearch hsame hpos (onFile_course h)
  · rw [EditTool.run, hwhy, Step.throw_bind] at h
    obtain ⟨rfl, rfl⟩ := Step.run_throw_iff.mp h
    exact .rejected hinput (.edit hwhy)

theorem run_diffTool {w : Workplace} {fields : List (Value × Value)} {es : List Event}
    {out : Except Failure ToolResult} (h : Run (DiffTool.run w fields).run es out) :
    Attempt w .diff (.mapping fields) (.cancelled false :: quiet es) out := by
  obtain ⟨path, diff, blocks, hpath, hdiff, hblocks, hread⟩ | ⟨why, hwhy, hinput⟩ :=
    DiffTool.readRequest_eq fields
  · rw [DiffTool.run, hread, bind_assoc] at h
    obtain ⟨es', rfl, h'⟩ := Step.run_journal_bind_iff.mp h
    rw [pure_bind, DiffTool.apply_eq_onFile] at h'
    rw [quiet_append, quiet_journal, List.nil_append]
    exact .patched hpath hdiff hblocks (onFile_course h')
  · rw [DiffTool.run, hwhy, Step.throw_bind] at h
    obtain ⟨rfl, rfl⟩ := Step.run_throw_iff.mp h
    exact .rejected hinput (.diff hwhy)

theorem run_attempt {t : Tool} {w : Workplace} {args : Value} {es : List Event}
    {out : Except Failure ToolResult} (h : Run (attempt t w args).run es out) :
    Attempt w t args (quiet es) out := by
  obtain ⟨rfl, rfl⟩ | ⟨es', rfl, h'⟩ := Step.run_checkCancelled_bind_iff.mp h
  · exact .cancelled
  · split at h'
    · cases t with
      | edit => exact run_editTool h'
      | diff => exact run_diffTool h'
    · rename_i hargs
      obtain ⟨rfl, rfl⟩ := Step.run_throw_iff.mp h'
      exact .rejected nofun (.arguments hargs)

/-- The answer of a call whose failure is recorded: the record names the path
that the request gives, and there is no answer if that is too deep. -/
def noted (args : Value) (r : ToolResult) : Except Fault ToolResult :=
  (Settings.toWords? (pathGiven args)).map fun _ => r

theorem eq_of_noted {args : Value} {r answer : ToolResult} (h : noted args r = .ok answer) :
    answer = r := by
  unfold noted at h
  cases hwords : Settings.toWords? (pathGiven args) with
  | error f =>
    rw [hwords] at h
    cases h
  | ok words =>
    rw [hwords] at h
    exact (Except.ok.inj h).symm

/-- A path that is a text can always be named. -/
theorem noted_of_path {fields : List (Value × Value)} {path : Text}
    (h : Value.field? fields "file_path" = some (.text path)) (r : ToolResult) :
    noted (.mapping fields) r = .ok r := by
  have hgiven : pathGiven (.mapping fields) = .text path := by
    rw [pathGiven, h]
    rfl
  rw [noted, hgiven]
  rfl

/-- What is made of the end of an attempt: a refusal is a result too. -/
def settled (args : Value) : Except Failure ToolResult → Except Fault ToolResult
  | .ok r => .ok r
  | .error (.refused r) => noted args (refusedResult r)
  | .error (.file e) =>
    if e.kind = .invalidPath then .error (.file e)
    else noted args (fileResult (pathGiven args).shown e)
  | .error (.fault f) => .error f

theorem run_note {args : Value} {record : Text → Record} {r : ToolResult} {es : List Event}
    {out : Except Fault ToolResult} (h : Run (note args record r) es out) :
    quiet es = [] ∧ out = noted args r := by
  rw [note] at h
  rw [noted]
  split at h
  · rename_i f hwords
    obtain ⟨rfl, rfl⟩ := Run.pure_iff.mp h
    exact ⟨rfl, by rw [hwords]; rfl⟩
  · rename_i hwords
    obtain ⟨rfl, rfl⟩ := Run.pure_iff.mp h
    exact ⟨rfl, by rw [hwords]; rfl⟩
  · rename_i path hwords
    obtain ⟨_, _, rfl, h'⟩ := Run.query_bind_iff.mp h
    obtain ⟨rfl, rfl⟩ := Run.pure_iff.mp h'
    exact ⟨rfl, by rw [hwords]; rfl⟩

theorem run_settle {t : Tool} {w : Workplace} {args : Value} {es : List Event}
    {out : Except Fault ToolResult} (h : Run (settle t w args) es out) :
    ∃ reached, Attempt w t args (quiet es) reached ∧ out = settled args reached := by
  obtain ⟨reached, es₁, es₂, rfl, hattempt, h₂⟩ := Run.bind_iff.mp h
  have hquiet : quiet es₂ = [] ∧ out = settled args reached := by
    cases reached with
    | ok r =>
      obtain ⟨rfl, rfl⟩ := Run.pure_iff.mp h₂
      exact ⟨rfl, rfl⟩
    | error why =>
      cases why with
      | refused r => exact run_note h₂
      | file e =>
        by_cases hkind : e.kind = .invalidPath
        · simp only [if_pos hkind] at h₂
          obtain ⟨rfl, rfl⟩ := Run.pure_iff.mp h₂
          exact ⟨rfl, (if_pos hkind).symm⟩
        · simp only [if_neg hkind] at h₂
          obtain ⟨hquiet, rfl⟩ := run_note h₂
          exact ⟨hquiet, (if_neg hkind).symm⟩
      | fault f =>
        obtain ⟨rfl, rfl⟩ := Run.pure_iff.mp h₂
        exact ⟨rfl, rfl⟩
  refine ⟨reached, ?_, hquiet.2⟩
  rw [quiet_append, hquiet.1, List.append_nil]
  exact run_attempt hattempt

/-- A call whose path is too deep to be named looks at the signal and ends in
that fault, whatever the signal says. -/
theorem execute_of_deep {f : Fault} (h : Settings.toWords? (pathGiven args) = .error f) :
    execute t w args = .ask .cancelled fun _ => .done (.error f) := by
  obtain ⟨r, hrejects⟩ : ∃ r, Rejects t args (.refused r) := by
    cases args with
    | mapping fields =>
      refine rejects_of_unnamed t fun path hpath => ?_
      rw [pathGiven, hpath] at h
      cases h
    | _ => exact ⟨_, .arguments nofun⟩
  have hnote (record : Text → Record) (r : ToolResult) :
      note args record r = .done (.error f) := by
    rw [note, h]
    rfl
  have hsettle : settle t w args = .ask .cancelled fun _ => .done (.error f) := by
    rw [settle, attempt_of_rejects hrejects]
    show Action.ask _ _ = _
    congr 1
    funext got
    cases got with
    | true => exact hnote _ _
    | false => exact hnote _ _
  rw [execute, hsettle]
  rfl

/-- The settings ask for the result to be logged, and the log has a path that
no system has. -/
def Unlogged (w : Workplace) (es : List Event) (f : Fault) : Prop :=
  w.settings.recordMetrics = true ∧ ∃ content e, e.kind = .invalidPath ∧ f = .file e ∧
    .append (Metric.logPath w.base w.settings.metricsDir) content (.error e) ∈ es

/-- Logging asks for no file, and fails for want of a path at most. -/
theorem run_log {t : Tool} {w : Workplace} {args : Value} {r : ToolResult} {es : List Event}
    {out : Except Fault Unit} (h : Run (log t w args r) es out) :
    quiet es = [] ∧ (out = .ok () ∨ ∃ f, out = .error f ∧ Unlogged w es f) := by
  rw [log] at h
  split at h
  · obtain ⟨rfl, rfl⟩ := Run.pure_iff.mp h
    exact ⟨rfl, .inl rfl⟩
  · rename_i hasked
    obtain ⟨time, _, rfl, h₁⟩ := Run.query_bind_iff.mp h
    obtain ⟨got, _, rfl, h₂⟩ := Run.query_bind_iff.mp h₁
    cases got with
    | ok _ =>
      obtain ⟨rfl, rfl⟩ := Run.pure_iff.mp h₂
      exact ⟨rfl, .inl rfl⟩
    | error e =>
      by_cases hkind : e.kind = .invalidPath
      · simp only [if_pos hkind] at h₂
        obtain ⟨rfl, rfl⟩ := Run.pure_iff.mp h₂
        refine ⟨rfl, .inr ⟨.file e, rfl, by simpa using hasked,
          Utf8.encode (Metric.line time (entry t args r)), e, hkind, rfl, ?_⟩⟩
        exact List.mem_cons_of_mem _ List.mem_cons_self
      · simp only [if_neg hkind] at h₂
        obtain ⟨_, _, rfl, h₃⟩ := Run.query_bind_iff.mp h₂
        obtain ⟨rfl, rfl⟩ := Run.pure_iff.mp h₃
        exact ⟨rfl, .inl rfl⟩

/-- A call makes an attempt and settles it. Logging the result asks for no
file, and can only end the call without one. -/
theorem run_execute {t : Tool} {w : Workplace} {args : Value} {es : List Event}
    {out : Except Fault ToolResult} (h : Run (execute t w args) es out) :
    ∃ reached, Attempt w t args (quiet es) reached ∧
      (out = settled args reached ∨ ∃ f, out = .error f ∧ Unlogged w es f) := by
  obtain ⟨answer, es₁, es₂, rfl, hsettle, h₂⟩ := Run.bind_iff.mp h
  obtain ⟨reached, hattempt, rfl⟩ := run_settle hsettle
  have hquiet : quiet es₂ = [] ∧
      (out = settled args reached ∨ ∃ f, out = .error f ∧ Unlogged w es₂ f) := by
    cases hreached : settled args reached with
    | error f =>
      rw [hreached] at h₂
      obtain ⟨rfl, rfl⟩ := Run.pure_iff.mp h₂
      exact ⟨rfl, .inl rfl⟩
    | ok r =>
      rw [hreached] at h₂
      obtain ⟨logged, es₃, es₄, rfl, hlog, h₃⟩ := Run.bind_iff.mp h₂
      obtain ⟨hnone, rfl | ⟨f, rfl, hunlogged⟩⟩ := run_log hlog
      · obtain ⟨rfl, rfl⟩ := Run.pure_iff.mp h₃
        exact ⟨by rw [List.append_nil]; exact hnone, .inl rfl⟩
      · obtain ⟨rfl, rfl⟩ := Run.pure_iff.mp h₃
        rw [List.append_nil]
        exact ⟨hnone, .inr ⟨f, rfl, hunlogged⟩⟩
  refine ⟨reached, ?_, hquiet.2.imp id ?_⟩
  · rwa [quiet_append, hquiet.1, List.append_nil]
  · rintro ⟨f, hf, hasked, content, e, hkind, he, happend⟩
    exact ⟨f, hf, hasked, content, e, hkind, he, List.mem_append_right _ happend⟩

end Tool

end Amend
