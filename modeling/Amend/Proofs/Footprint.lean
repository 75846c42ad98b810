/-
Amend.Proofs.Footprint — which files a call changes.

Of all the events of a call at most one is a write. It is to the file the
request names, it is the last event that asks for a file, and the call
succeeds exactly if the write does (`Tool.Attempt.writes_cases`); so every
other way a call can end leaves all files as they were. For a store that
keeps its files in a table this says what the whole call does to the table
(`execute_footprint`).

  §1 Writes.
  §2 Stores that keep a table of files.
  §3 Calls.
-/
import Amend.Proofs.Framing

namespace Amend

/-! ## §1 Writes -/

/-- The write an event is: the path, the content, and whether it was done. -/
def Event.write? : Event → Option (Text × Bytes × Bool)
  | .write path content got => some (path, content, got.isOk)
  | _ => none

/-- The writes among events, in order. -/
def writes (es : List Event) : List (Text × Bytes × Bool) := es.filterMap Event.write?

theorem writes_quiet (es : List Event) : writes (quiet es) = writes es := by
  rw [writes, quiet, List.filterMap_filter]
  congr 1
  funext e
  cases e <;> rfl

/-- The call makes no write, or just one, to the file at `place`, and then it
succeeds exactly if that write is done. -/
def WritesOnce (place : Text) (es : List Event) (out : Except Failure ToolResult) : Prop :=
  writes es = [] ∨ ∃ content done, writes es = [(place, content, done)] ∧
    (done = true ↔ ∃ answer, out = .ok answer)

theorem Course.writesOnce {place : Text} {absent : Refusal} {decide : Bytes → Decision}
    {es : List Event} {out : Except Failure ToolResult} (h : Course place absent decide es out) :
    WritesOnce place es out := by
  cases h with
  | @unwritten _ content _ _ _ e => exact .inr ⟨content, false, rfl, by simp⟩
  | @written _ content _ _ _ => exact .inr ⟨content, true, rfl, by simp⟩
  | _ => exact .inl rfl

theorem EditTool.Creation.writesOnce {w : Workplace} {r : Request} {place : Text} {es : List Event}
    {out : Except Failure ToolResult} (h : Creation w r place es out) : WritesOnce place es out := by
  cases h with
  | unwritten _ e => exact .inr ⟨_, false, rfl, by simp⟩
  | created _ => exact .inr ⟨_, true, rfl, by simp⟩
  | _ => exact .inl rfl

/-- The answer that goes with a decision to go on. -/
def Decision.answer? : Decision → Option ToolResult
  | .refuse _ => none
  | .keep answer => some answer
  | .rewrite _ _ answer => some answer

theorem EditTool.success_of_decide {w : Workplace} {r : Request} {raw : Bytes}
    {answer : ToolResult} (h : (decide w r raw).answer? = some answer) :
    answer.success = true ∧ answer.code = none := by
  simp only [decide] at h
  split at h
  · cases h
  · split at h
    · obtain rfl := Option.some.inj h
      exact ⟨rfl, rfl⟩
    · obtain rfl := Option.some.inj h
      exact ⟨rfl, rfl⟩

theorem DiffTool.success_of_decide {w : Workplace} {r : Request} {raw : Bytes}
    {answer : ToolResult} (h : (decide w r raw).answer? = some answer) :
    answer.success = true ∧ answer.code = none := by
  simp only [decide] at h
  split at h
  · cases h
  · split at h
    · obtain rfl := Option.some.inj h
      exact ⟨rfl, rfl⟩
    · obtain rfl := Option.some.inj h
      exact ⟨rfl, rfl⟩

theorem Course.answer {place : Text} {absent : Refusal} {decide : Bytes → Decision}
    {es : List Event} {answer : ToolResult} (h : Course place absent decide es (.ok answer)) :
    ∃ raw, (decide raw).answer? = some answer := by
  cases h with
  | @kept raw _ decided => exact ⟨raw, by rw [decided]; rfl⟩
  | @written raw _ _ _ decided => exact ⟨raw, by rw [decided]; rfl⟩

namespace Tool.Attempt

variable {w : Workplace} {t : Tool} {args : Value} {es : List Event}
  {out : Except Failure ToolResult}

/-- A call writes at most once, to the file its request names, and then it
succeeds exactly if the write is done. -/
theorem writes_cases (h : Attempt w t args es out) :
    writes es = [] ∨ ∃ path content done, pathGiven args = .text path ∧
      writes es = [(Path.resolve w.home w.base path, content, done)] ∧
      (done = true ↔ ∃ answer, out = .ok answer) := by
  have named {fields : List (Value × Value)} {path : Text} {es : List Event}
      (hpath : Value.field? fields "file_path" = some (.text path))
      (honce : WritesOnce (Path.resolve w.home w.base path) es out) :
      writes es = [] ∨ ∃ path content done, pathGiven (.mapping fields) = .text path ∧
        writes es = [(Path.resolve w.home w.base path, content, done)] ∧
        (done = true ↔ ∃ answer, out = .ok answer) := by
    rcases honce with hnone | ⟨content, done, hone, hdone⟩
    · exact .inl hnone
    · exact .inr ⟨path, content, done, by rw [pathGiven, hpath]; rfl, hone, hdone⟩
  cases h with
  | cancelled => exact .inl rfl
  | rejected _ _ => exact .inl rfl
  | created _ path _ course => exact named path course.writesOnce
  | edited _ path _ _ _ course => exact named path course.writesOnce
  | patched path _ _ course => exact named path course.writesOnce

/-- An attempt that ends well is told as a success, without a code. -/
theorem success {answer : ToolResult} (h : Attempt w t args es (.ok answer)) :
    answer.success = true ∧ answer.code = none := by
  cases h with
  | created _ _ _ course =>
    cases course
    exact ⟨rfl, rfl⟩
  | edited _ _ _ _ _ course =>
    obtain ⟨raw, hraw⟩ := course.answer
    exact EditTool.success_of_decide hraw
  | patched _ _ _ course =>
    obtain ⟨raw, hraw⟩ := course.answer
    exact DiffTool.success_of_decide hraw

end Tool.Attempt

/-! ## §2 Stores that keep a table of files -/

/-- A store that keeps its files in a table, by the normal form of their
paths. Looking and making directories leave the table alone; a write puts
one file there, or is refused. -/
class FileTable (σ : Type) [FileStore (StateM σ)] where
  files : σ → Table Text Bytes
  files_read : ∀ (path : Text) (t : σ),
    files ((FileStore.read path : StateM σ (Except FileError Bytes)).run t).2 = files t
  files_has : ∀ (path : Text) (t : σ),
    files ((FileStore.has path : StateM σ Bool).run t).2 = files t
  files_makeDirs : ∀ (path : Text) (t : σ),
    files ((FileStore.makeDirs path : StateM σ (Except FileError Unit)).run t).2 = files t
  files_write : ∀ (path : Text) (content : Bytes) (t : σ),
    files ((FileStore.write path content : StateM σ (Except FileError Unit)).run t).2 =
      if ((FileStore.write path content : StateM σ (Except FileError Unit)).run t).1.isOk
        then (files t).put (Path.normalize path) content else files t

open FileTable (files)

instance : FileTable Memory where
  files := Memory.files
  files_read _ _ := rfl
  files_has _ _ := rfl
  files_makeDirs path t := by
    change (t.makeDirs path).files = t.files
    rw [Memory.makeDirs]
    split <;> rfl
  files_write _ _ _ := rfl

variable {σ : Type} [FileStore (StateM σ)] [FileTable σ]

instance : FileTable (Faulty σ) where
  files t := files t.store
  files_read path t := by
    change files ((Faulty.guarded Faults.read path (FileStore.read path)).run t).2.store = _
    rw [Faulty.guarded_run]
    split
    · rfl
    · exact FileTable.files_read path t.store
  files_has path t := FileTable.files_has path t.store
  files_makeDirs path t := by
    change files ((Faulty.guarded Faults.makeDirs path (FileStore.makeDirs path)).run t).2.store = _
    rw [Faulty.guarded_run]
    split
    · rfl
    · exact FileTable.files_makeDirs path t.store
  files_write path content t := by
    change files ((Faulty.guarded Faults.write path (FileStore.write path content)).run t).2.store =
      if ((Faulty.guarded Faults.write path (FileStore.write path content)).run t).1.isOk then _ else _
    rw [Faulty.guarded_run]
    split
    · rfl
    · exact FileTable.files_write path content t.store

/-- The table with the writes that were done carried out. -/
def Table.afterWrites (t : Table Text Bytes) (ws : List (Text × Bytes × Bool)) : Table Text Bytes :=
  ws.foldl (fun t (path, content, done) =>
    if done then t.put (Path.normalize path) content else t) t

theorem Event.Moves.files {e : Event} {t t' : σ} (h : e.Moves t t') :
    files t' = (files t).afterWrites (writes [e]) := by
  cases e with
  | write path content got =>
    have hput := FileTable.files_write path content t
    rw [Event.Moves] at h
    rwa [h] at hput
  | read path got =>
    have hkeeps := FileTable.files_read path t
    rw [Event.Moves] at h
    rwa [h] at hkeeps
  | has path got =>
    have hkeeps := FileTable.files_has path t
    rw [Event.Moves] at h
    rwa [h] at hkeeps
  | makeDirs path got =>
    have hkeeps := FileTable.files_makeDirs path t
    rw [Event.Moves] at h
    rwa [h] at hkeeps
  | cancelled _ | journal _ | now _ | append _ _ _ => exact congrArg FileTable.files h

theorem Trace.files {es : List Event} {t t' : σ} (h : Trace es t t') :
    files t' = (files t).afterWrites (writes es) := by
  induction es generalizing t with
  | nil => exact congrArg FileTable.files h
  | cons e es ih =>
    obtain ⟨t₁, hmoves, hrest⟩ := h
    have hwrites : writes (e :: es) = writes [e] ++ writes es := List.filterMap_append (l := [e])
    rw [ih hrest, hmoves.files, hwrites, Table.afterWrites, Table.afterWrites, Table.afterWrites,
      List.foldl_append]

/-! ## §3 Calls -/

/-- The text a call makes of the content of the file its request names, if it
makes one. -/
inductive Tool.Patches (w : Workplace) : Tool → Value → (content patched : Text) → Prop
  | edit {fields : List (Value × Value)} {r : EditTool.Request} {content patched : Text} {e : Edit}
      (request : EditTool.readRequest fields = pure r) (search : r.search ≠ [])
      (found : resolveEdit content (LineEnding.normalize r.search)
        (LineEnding.normalize r.replacement) r.expected = .ok e)
      (made : e.content = patched) : Patches w .edit (.mapping fields) content patched
  | diff {fields : List (Value × Value)} {diff content patched : Text} {blocks : List Block}
      (diff_given : Value.field? fields "diff" = some (.text diff))
      (blocks_read : readBlocks diff = .ok blocks)
      (made : (applyBlocks content w.settings.hintWindow blocks).content = patched) :
      Patches w .diff (.mapping fields) content patched

omit [FileTable σ] in
/-- Where it is decided not to change the text that was read, nothing is
written. -/
theorem Course.writes_eq_nil [LawfulStore σ] {place : Text} {absent : Refusal}
    {decide : Bytes → Decision} {es : List Event} {out : Except Failure ToolResult} {s s' : σ}
    {raw : Bytes} (h : Course place absent decide es out) (htrace : Trace es s s')
    (hraw : fileAt s place = some raw)
    (hkept : ∀ content note answer, decide raw ≠ .rewrite content note answer) :
    writes es = [] := by
  cases h with
  | @unwritten raw' _ _ _ decided _ =>
    obtain rfl := Option.some.inj (hraw.symm.trans htrace.of_read.1)
    exact absurd decided (hkept _ _ _)
  | @written raw' _ _ _ decided =>
    obtain rfl := Option.some.inj (hraw.symm.trans htrace.of_read.1)
    exact absurd decided (hkept _ _ _)
  | _ => rfl

omit [FileTable σ] in
/-- Where the text made of the file is the text that was read, nothing is
written. -/
theorem Tool.Attempt.writes_eq_nil [LawfulStore σ] {w : Workplace} {t : Tool} {args : Value}
    {es : List Event} {out : Except Failure ToolResult} {s s' : σ} {path : Text} {raw : Bytes}
    (h : Attempt w t args es out) (htrace : Trace es s s') (hpath : pathGiven args = .text path)
    (hraw : fileAt s (Path.resolve w.home w.base path) = some raw)
    (hsame : Patches w t args (contentOf raw) (contentOf raw)) : writes es = [] := by
  cases h with
  | cancelled => rfl
  | rejected _ _ => rfl
  | @created _ r _ _ request _ search _ =>
    cases hsame with
    | edit request' search' _ _ =>
      rw [EditTool.readRequest_injective request request'] at search
      exact absurd search search'
  | @edited fields r es _ request path_given _ _ _ course =>
    obtain ⟨_, rfl, htrace⟩ := htrace
    have hplace : r.path = path := by simpa [pathGiven, path_given] using hpath
    rw [← hplace] at hraw
    refine course.writes_eq_nil htrace hraw fun content note answer hrewrite => ?_
    obtain ⟨e, he, hdiffers, -⟩ := EditTool.of_decide_rewrite hrewrite
    cases hsame with
    | edit request' _ found made =>
      obtain rfl := EditTool.readRequest_injective request request'
      obtain rfl := Except.ok.inj (he.symm.trans found)
      exact hdiffers made
  | @patched fields given diff blocks es _ path_given diff_given blocks_read course =>
    obtain ⟨_, rfl, htrace⟩ := htrace
    have hplace : given = path := by simpa [pathGiven, path_given] using hpath
    rw [← hplace] at hraw
    refine course.writes_eq_nil htrace hraw fun content note answer hrewrite => ?_
    obtain ⟨hdiffers, -⟩ := DiffTool.of_decide_rewrite hrewrite
    cases hsame with
    | diff diff_given' blocks_read' made =>
      obtain rfl := Value.text.inj (Option.some.inj (diff_given.symm.trans diff_given'))
      obtain rfl := Except.ok.inj (blocks_read.symm.trans blocks_read')
      exact hdiffers made

/-- A call changes no file unless it succeeds, and none but the one its
request names, at the normal form of the path that leads to it. It writes at
most once, and not at all where the text it makes of the file is the text it
read. This is so whatever fails, and whenever the call is cancelled. -/
theorem execute_footprint [LawfulStore σ] {t : Tool} {w : Workplace} {args : Value}
    {signal : Signal} {s s' : Site σ} {out : Except Fault ToolResult}
    (hrun : (runTool signal (t.execute w args) : StateM (Site σ) _).run s = (out, s')) :
    (∀ r, out = .ok r → r.success = false → files s'.store = files s.store) ∧
    (∀ key, (∀ path, Tool.pathGiven args = .text path →
        key ≠ Path.normalize (Path.resolve w.home w.base path)) →
      (files s'.store).get? key = (files s.store).get? key) ∧
    (writes ((t.execute w args).events (StateM (Site σ)) signal (0, s))).length ≤ 1 ∧
    (∀ path raw, Tool.pathGiven args = .text path →
      fileAt s.store (Path.resolve w.home w.base path) = some raw →
      t.Patches w args (contentOf raw) (contentOf raw) →
      writes ((t.execute w args).events (StateM (Site σ)) signal (0, s)) = []) := by
  obtain ⟨reached, hattempt, htrace, hout⟩ := Tool.call_attempt hrun
  have hfiles := htrace.files
  have honce := hattempt.writes_cases
  rw [writes_quiet] at hfiles honce
  refine ⟨?_, ?_, ?_, ?_⟩
  · rintro r rfl hfailed
    -- a failed result settles an attempt that failed, so no write was done
    have hreached : ∀ answer, reached ≠ .ok answer := by
      rintro answer rfl
      rcases hout with hsettled | ⟨f, hf⟩
      · obtain rfl := Except.ok.inj hsettled
        rw [hattempt.success.1] at hfailed
        cases hfailed
      · cases hf
    rcases honce with hnone | ⟨path, content, done, -, hone, hdone⟩
    · rw [hfiles, hnone]
      rfl
    · cases done with
      | false =>
        rw [hfiles, hone]
        rfl
      | true =>
        obtain ⟨answer, hok⟩ := hdone.mp rfl
        exact absurd hok (hreached answer)
  · intro key hkey
    rcases honce with hnone | ⟨path, content, done, hpath, hone, -⟩
    · rw [hfiles, hnone]
      rfl
    · rw [hfiles, hone]
      cases done with
      | false => rfl
      | true => exact Table.get?_put_of_ne _ content (hkey path hpath)
  · rcases honce with hnone | ⟨path, content, done, -, hone, -⟩
    · simp [hnone]
    · simp [hone]
  · intro path raw hpath hraw hsame
    have hnil := hattempt.writes_eq_nil htrace hpath hraw hsame
    rwa [writes_quiet] at hnil

/-- The write of an edit is refused, since the disk is full: the call fails
and the file stays. -/
theorem refused_write_leaves_files :
    ∃ (s s' : Site (Faulty Memory)) (fields : List (Value × Value)) (r : ToolResult),
      s.store = ⟨.ofFiles [("/w/a.txt", [97])], { write := some (28, "No space left on device") }⟩ ∧
      fields = textFields [("file_path", "a.txt"), ("old_string", "a"), ("new_string", "b")] ∧
      (runTool none (Tool.edit.execute ⟨"/w", "/home", {}⟩ (.mapping fields)) :
        StateM (Site (Faulty Memory)) _).run s = (.ok r, s') ∧
      r.success = false ∧ r.code = some .io ∧ files s'.store = files s.store := by
  let fields := textFields [("file_path", "a.txt"), ("old_string", "a"), ("new_string", "b")]
  let s : Site (Faulty Memory) :=
    { store := ⟨.ofFiles [("/w/a.txt", [97])], { write := some (28, "No space left on device") }⟩ }
  have hanswer : ((runTool none (Tool.edit.execute ⟨"/w", "/home", {}⟩ (.mapping fields)) :
      StateM (Site (Faulty Memory)) _).run s).1.toOption.map (fun r => (r.success, r.code)) =
        some (false, some .io) := by decide +kernel
  obtain ⟨out, s', hrun⟩ : ∃ out s', (runTool none (Tool.edit.execute ⟨"/w", "/home", {}⟩
    (.mapping fields)) : StateM (Site (Faulty Memory)) _).run s = (out, s') := ⟨_, _, rfl⟩
  rw [hrun] at hanswer
  cases out with
  | error f => cases hanswer
  | ok r =>
    obtain ⟨hfailed, hcode⟩ := Prod.mk.inj (Option.some.inj hanswer)
    exact ⟨s, s', fields, r, rfl, rfl, hrun, hfailed, hcode, (execute_footprint hrun).1 r rfl hfailed⟩

end Amend
