/-
Amend.Proofs.Reviewing — reviewed changes that are not approved.

A call that is to be reviewed stages its changes and then deals with them
(`run_eq_staging`). Up to there no file changes but its logs (`spared_staging`),
and what is staged is forgotten unless the user says yes. But the user is asked
about changes of texts, in which a mark stands for bytes that are no UTF-8.
Where all that is staged looks in this way like the files as they are, nobody is
asked and it is written (`Overlay.Unseen`); in every other case no file changes
without approval (`run_unapproved`).

  §1 Changes that alter nothing.
  §2 What is staged, and the texts it is shown as.
  §3 Dealing with what is staged.
  §4 Calls.
-/
import Mathlib.Data.List.Forall2
import Amend.Proofs.Machines

namespace Amend

/-! ## §1 Changes that alter nothing -/

/-- Changes of one file each, of which none alters anything. -/
theorem Change.staged_eq_nil_iff {changes : List Change} (h : (changes.map Change.path).Nodup) :
    Change.staged changes = [] ↔ ∀ c ∈ changes, c.alters = false := by
  have hlatest : Table.ofList (changes.map fun c => (c.path, c)) =
      changes.map fun c => (c.path, c) :=
    Table.ofList_eq_self (by simpa [Function.comp_def] using h)
  unfold staged
  simp only [hlatest, List.map_map, Function.comp_def, List.map_id']
  rw [← List.length_eq_zero_iff, List.length_mergeSort, List.length_eq_zero_iff,
    List.filter_eq_nil_iff]
  simp

/-! ## §2 What is staged, and the texts it is shown as -/

/-- The file is there, and the bytes look like what it holds: both are decoded
as the same text. -/
def Disk.LooksLike (d : Disk) (path : Text) (content : Bytes) : Prop :=
  ∃ held, d.read path = .ok held ∧ Utf8.decodeLossy held = Utf8.decodeLossy content

/-- Something is staged, and nothing of it can be seen. -/
structure Overlay.Unseen (d : Disk) (o : Overlay) : Prop where
  staged : o.pending ≠ []
  alike : ∀ path content, (path, content) ∈ o.pending → d.LooksLike path content

namespace Command

/-- The change that a staged file is shown as. -/
structure Shows (d : Disk) (e : Text × Bytes) (c : Change) : Prop where
  path : c.path = e.1
  alike : c.alters = false → d.LooksLike e.1 e.2

theorem Shows.map_path {d : Disk} {fs : Table Text Bytes} {changes : List Change}
    (h : List.Forall₂ (Shows d) fs changes) : changes.map Change.path = fs.keys := by
  induction h with
  | nil => rfl
  | cons hfirst _ ih => simp [Table.keys, hfirst.path, ih]

theorem Shows.looksLike {d : Disk} {fs : Table Text Bytes} {changes : List Change}
    (h : List.Forall₂ (Shows d) fs changes) (hsame : ∀ c ∈ changes, c.alters = false) :
    ∀ path content, (path, content) ∈ fs → d.LooksLike path content := by
  induction h with
  | nil => exact nofun
  | cons hfirst _ ih =>
    obtain ⟨hhead, htail⟩ := List.forall_mem_cons.mp hsame
    intro path content hmem
    rcases List.mem_cons.mp hmem with rfl | hmem
    · exact hfirst.alike hhead
    · exact ih htail path content hmem

theorem run_beneath (path : Text) (m : Machine) : (Overlay.beneath path : Host _).onMachine.run m =
    (if m.disk.has path then (m.disk.read path).map some else .ok none, m) := by
  unfold Overlay.beneath
  show (if m.disk.has path then _ else _ : Host _).onMachine.run m = _
  split
  · rfl
  · rfl

theorem shows_of_beneath {d : Disk} {path : Text} {old : Option Bytes} {content : Bytes}
    (hold : (if d.has path then (d.read path).map some else .ok none) = .ok old) :
    Shows d (path, content) ⟨path, old.map Utf8.decodeLossy, Utf8.decodeLossy content⟩ := by
  refine ⟨rfl, fun hsame => ?_⟩
  have heq : old.map Utf8.decodeLossy = some (Utf8.decodeLossy content) := by
    simpa [Change.alters] using hsame
  obtain ⟨held, rfl, hheld⟩ := Option.map_eq_some_iff.mp heq
  split at hold
  · cases hread : d.read path with
    | error e =>
      rw [hread] at hold
      cases hold
    | ok b =>
      rw [hread] at hold
      cases hold
      exact ⟨held, hread, hheld⟩
  · cases hold

/-- To find the changes that staged files are, the machine is only looked at. -/
theorem run_changesOf (fs : Table Text Bytes) (m : Machine) :
    ∃ r, (changesOf fs).run.onMachine.run m = (r, m) ∧
      ∀ changes, r = .ok changes → List.Forall₂ (Shows m.disk) fs changes := by
  induction fs with
  | nil => exact ⟨_, rfl, fun _ h => by cases h; exact .nil⟩
  | cons e fs ih =>
    obtain ⟨path, content⟩ := e
    obtain ⟨r, hrest, hshows⟩ := ih
    have hfirst : (ExceptT.lift (Overlay.beneath path) : Work Host _).run.onMachine.run m =
        (.ok (if m.disk.has path then (m.disk.read path).map some else .ok none), m) := by
      rw [ExceptT.run_lift, map_eq_pure_bind, Host.run_bind, run_beneath]
      rfl
    unfold changesOf
    rw [run_bind, hfirst]
    cases hold : (if m.disk.has path then (m.disk.read path).map some else .ok none) with
    | error e => exact ⟨_, rfl, nofun⟩
    | ok old =>
      dsimp only
      rw [run_bind, hrest]
      cases r with
      | error e => exact ⟨_, rfl, nofun⟩
      | ok changes =>
        refine ⟨_, rfl, fun _ h => ?_⟩
        cases h
        exact .cons (shows_of_beneath hold) (hshows changes rfl)

/-! ## §3 Dealing with what is staged -/

/-- The user does not say yes, but no, or nothing that counts up to the end of
the input. -/
def Unapproved (input : Text) : Prop := (Console.ask (Text.streamLines input)).1 = false

instance (input : Text) : Decidable (Unapproved input) :=
  inferInstanceAs (Decidable ((Console.ask (Text.streamLines input)).1 = false))

theorem unapproved_nil : Unapproved [] := rfl

variable {logs : List Text} {m : Machine} {o : Overlay}

theorem Spares.discard : Spares logs (ExceptT.lift Overlay.discard : Work Staged Unit) :=
  fun _ _ => List.nodup_nil

theorem spares_showStaged (changes : List Change) : Spares logs (showStaged changes) :=
  .bind (.ask trivial) fun _ => .bind .discard fun _ => .say _ _

theorem spared_of_spares {α : Type} {x : Work Staged α} (hx : Spares logs x) (ho : o.Keyed)
    (h : m.LogsIn logs) : (((x.run.run o).onMachine.run m).1.2).Keyed ∧
      m.Spared logs ((x.run.run o).onMachine.run m).2 :=
  Machine.spared_run (hx o ho) h

/-- Changes of which one alters something are not written. -/
theorem spared_writeApproved {changes : List Change} (hstaged : Change.staged changes ≠ [])
    (hno : Unapproved m.input) (ho : o.Keyed) (h : m.LogsIn logs) :
    m.Spared logs (((writeApproved changes).run.run o).onMachine.run m).2 := by
  obtain ⟨hanswer, hasked⟩ := Machine.run_approve hstaged hno h
  have hreject : Spares logs (do
      ExceptT.lift Overlay.discard
      Work.say false "Changes rejected; no files written."
      return false : Work Staged Bool) :=
    .bind .discard fun _ => .bind (.say _ _) fun _ => .pure _
  have hask : ((Work.ask (.approve changes) : Work Staged Bool).run.run o).onMachine.run m =
      ((.ok false, o), ((Machine.approve changes).run m).2) := by
    rw [← hanswer]
    rfl
  unfold writeApproved
  rw [run_staged_bind, hask]
  exact hasked.trans (spared_of_spares hreject ho hasked.log).2

/-- Where the user does not approve, nothing is written, unless nothing of it
can be seen. -/
theorem spared_settleStaged (dryRun : Bool) (hno : Unapproved m.input) (ho : o.Keyed)
    (h : m.LogsIn logs) :
    m.Spared logs (((settleStaged dryRun).run.run o).onMachine.run m).2 ∨ o.Unseen m.disk := by
  obtain ⟨r, hchanges, hshows⟩ := run_changesOf o.pending m
  have hget : ((ExceptT.lift get : Work Staged Overlay).run.run o).onMachine.run m =
      ((.ok o, o), m) := rfl
  have hlift : ((ExceptT.mk (StateT.lift (changesOf o.pending).run) :
      Work Staged (List Change)).run.run o).onMachine.run m = ((r, o), m) := by
    show ((changesOf o.pending).run >>= fun r => pure (r, o) : Host _).onMachine.run m = _
    rw [Host.run_bind, hchanges]
    rfl
  unfold settleStaged
  rw [run_staged_bind, hget]
  dsimp only
  split
  · exact .inl (.refl h)
  · rename_i hpending
    rw [run_staged_bind, hlift]
    cases r with
    | error f => exact .inl (.refl h)
    | ok changes =>
      dsimp only
      have hall := hshows changes rfl
      split
      · exact .inl (spared_of_spares (.bind (spares_showStaged changes) fun _ => .pure _) ho h).2
      · by_cases hstaged : Change.staged changes = []
        -- as texts the changes alter nothing, so nobody is asked
        · right
          have hpaths : (changes.map Change.path).Nodup := by
            rw [Shows.map_path hall]
            exact ho
          have hsame := (Change.staged_eq_nil_iff hpaths).mp hstaged
          exact ⟨fun hnil => hpending (by simp [Overlay.isEmpty, hnil]), Shows.looksLike hall hsame⟩
        · exact .inl (spared_writeApproved hstaged hno ho h)

/-! ## §4 Calls -/

/-- Starts the log of a call's own work, unless it is told not to. -/
def startLog (i : Invocation) (settings : Settings) : Work Host Unit :=
  if i.logs then Work.demand (.openLog settings.logDir) else pure ()

/-- What a call begins with: it loads its settings, starts its log, and finds
the place it works in. -/
def prepare (i : Invocation) : Work Host Workplace := do
  let settings ← ExceptT.mk (Settings.load i.config)
  startLog i settings
  let working ← Work.ask .workingDirectory
  let home ← ExceptT.lift (Settings.variableOrEmpty "HOME")
  return Workplace.at (i.directory.getD []) working home settings

/-- A call up to where it deals with what it has staged: whether its edits
succeeded, and what is staged. -/
def staging (i : Invocation) : Work Host (Bool × Overlay) := do
  let w ← prepare i
  Work.ask (.journal (startRecord i))
  ExceptT.mk do
    let (done, o) ← (runTask w i.task : Work Staged Bool).run.run {}
    return done.map fun b => (b, o)

/-- The rest of the call. -/
def settling (i : Invocation) (r : Bool × Overlay) : Work Host Bool :=
  ExceptT.mk do
    let (settled, _) ← (settleStaged i.dryRun).run.run r.2
    return settled.map fun b => r.1 && b

theorem runStaged_eq (i : Invocation) (w : Workplace) (t : Task) :
    (ExceptT.mk do
      let (result, _) ← (runStaged w i.dryRun t : Work Staged Bool).run.run {}
      return result : Work Host Bool) =
    (ExceptT.mk do
      let (done, o) ← (runTask w t : Work Staged Bool).run.run {}
      return done.map fun b => (b, o)) >>= settling i := by
  refine ExceptT.ext ?_
  show (StateT.run _ _ >>= _ : Host _) = _
  rw [runStaged, ExceptT.run_bind, ExceptT.run_bind, StateT.run_bind, bind_assoc]
  simp only [ExceptT.run_mk, bind_assoc]
  congr 1
  funext r
  obtain ⟨e | done, o⟩ := r
  · rfl
  · simp [settling, Except.map]

/-- A call that is reviewed stages its changes and deals with them. -/
theorem run_eq_staging {i : Invocation} (hreview : i.review = true)
    (htask : ∀ n, i.task ≠ .stats n) : run i = staging i >>= settling i := by
  unfold run staging prepare startLog
  simp only [hreview, Bool.or_true, if_true, bind_assoc]
  congr 1
  funext settings
  cases i.logs
  · simp only [Bool.false_eq_true, if_false, pure_bind, ← runStaged_eq]
  · simp only [if_true, pure_bind, ← runStaged_eq]

/-- The files that a call may keep a log in: that of its own work, and that of
the results of its tools. -/
def logsOf (i : Invocation) (m : Machine) : List Text :=
  m.log.toList ++
    match ((Settings.load i.config).onMachine.run m).1 with
    | .error _ => []
    | .ok settings =>
      let path := Path.join settings.logDir m.logName
      (if i.logs then [path, m.disk.absolute path] else []) ++
        (Workplace.at (i.directory.getD []) m.disk.workingPath [] settings).logs

/-- What is left of the standard input once the task has read what it is
about. -/
def Task.answers : Task → Text → Text
  | .applyDiff _ diffFile, input => if diffFile.filter (· ≠ []) = none then [] else input
  | _, input => input

theorem Task.answers_nil (t : Task) : t.answers [] = [] := by
  cases t <;> simp [answers]

theorem run_place (given : Text) (settings : Settings) (m : Machine) :
    (do
      let working ← Work.ask .workingDirectory
      let home ← ExceptT.lift (Settings.variableOrEmpty "HOME")
      return Workplace.at given working home settings : Work Host Workplace).run.onMachine.run m =
    (.ok (Workplace.at given m.disk.workingPath ((m.environment "HOME").getD []) settings), m) :=
  rfl

/-- To start a log changes no file but that one. -/
theorem spared_startLog {i : Invocation} {settings : Settings} (h : m.LogsIn logs)
    (hlogs : i.logs = true → Path.join settings.logDir m.logName ∈ logs ∧
      m.disk.absolute (Path.join settings.logDir m.logName) ∈ logs) :
    m.Spared logs ((startLog i settings).run.onMachine.run m).2 := by
  unfold startLog
  split
  · rename_i hlogged
    rw [run_demand]
    exact Machine.spared_openLog h (hlogs hlogged).1 (hlogs hlogged).2
  · exact .refl h

/-- What a call begins with changes no file but its logs. -/
theorem spared_prepare (i : Invocation) (m : Machine) :
    m.Spared (logsOf i m) ((prepare i).run.onMachine.run m).2 ∧
      ∀ w, ((prepare i).run.onMachine.run m).1 = .ok w → ∀ path ∈ w.logs, path ∈ logsOf i m := by
  have hlog : m.LogsIn (logsOf i m) := fun path hpath =>
    List.mem_append_left _ (Option.mem_toList.mpr hpath)
  obtain ⟨r, m', hload⟩ : ∃ r m', (Settings.load i.config).onMachine.run m = (r, m') := ⟨_, _, rfl⟩
  have hsettings : (ExceptT.mk (Settings.load i.config) : Work Host Settings).run.onMachine.run m =
      (r, m') := hload
  have hloaded : m.Spared (logsOf i m) m' := by
    have hspared := (Machine.spared_run (Settings.asks_load i.config) hlog).2
    rwa [hload] at hspared
  unfold prepare
  rw [run_bind, hsettings]
  cases r with
  | error f => exact ⟨hloaded, nofun⟩
  | ok settings =>
    have hlogs : logsOf i m = m.log.toList ++
        ((if i.logs then [Path.join settings.logDir m.logName,
            m.disk.absolute (Path.join settings.logDir m.logName)] else []) ++
          (Workplace.at (i.directory.getD []) m.disk.workingPath [] settings).logs) := by
      unfold logsOf
      rw [hload]
    have hstarted : m'.Spared (logsOf i m) ((startLog i settings).run.onMachine.run m').2 := by
      refine spared_startLog hloaded.log fun hlogged => ?_
      rw [hloaded.logName, hloaded.absolute_eq, hlogs, if_pos hlogged]
      simp
    dsimp only
    rw [run_bind]
    rcases hstart : (startLog i settings).run.onMachine.run m' with ⟨f | _, m''⟩
    · rw [hstart] at hstarted
      exact ⟨hloaded.trans hstarted, nofun⟩
    · rw [hstart] at hstarted
      have hspared := hloaded.trans hstarted
      dsimp only
      rw [run_place]
      refine ⟨hspared, fun w hw path hpath => ?_⟩
      cases hw
      rw [hlogs]
      rw [hspared.workingPath_eq] at hpath
      exact List.mem_append_right _ (List.mem_append_right _ hpath)

theorem Unapproved.of_spared {m' : Machine} (h : m.Spared logs m') (hno : Unapproved m.input) :
    Unapproved m'.input := by
  obtain hinput | hinput := h.input
  · rwa [hinput]
  · rw [hinput]
    exact unapproved_nil

/-- A request of blocks that is not in a file takes the whole input. -/
theorem runDiff_input {w : Workplace} {file : Text} {diffFile : Option Text}
    (hlogs : ∀ path ∈ w.logs, path ∈ logs) (ho : o.Keyed) (h : m.LogsIn logs)
    (hnone : diffFile.filter (· ≠ []) = none) :
    (((runDiff w file diffFile : Work Staged Bool).run.run o).onMachine.run m).2.input = [] := by
  have hask : ((Work.ask .input : Work Staged Text).run.run o).onMachine.run m =
      ((.ok (Text.universal m.input), o), { m with input := [] }) := rfl
  unfold runDiff
  rw [hnone]
  dsimp only
  rw [run_staged_bind, hask]
  have hrest := spared_of_spares ((spares_callAndSay w .diff (request [("file_path", .text file),
    ("diff", .text (Text.universal m.input))])).mono hlogs) ho (m := { m with input := [] }) h
  exact hrest.2.input.elim id id

/-- What a task reads of the input is not taken for an approval. -/
theorem unapproved_runTask {w : Workplace} {t : Task} (hlogs : ∀ path ∈ w.logs, path ∈ logs)
    (ho : o.Keyed) (h : m.LogsIn logs) (hno : Unapproved (t.answers m.input)) :
    Unapproved (((runTask w t : Work Staged Bool).run.run o).onMachine.run m).2.input := by
  have hspared := (spared_of_spares ((spares_runTask w t).mono hlogs) ho h).2
  cases t with
  | applyDiff file diffFile =>
    by_cases hnone : diffFile.filter (· ≠ []) = none
    · show Unapproved
        (((runDiff w file diffFile : Work Staged Bool).run.run o).onMachine.run m).2.input
      rw [runDiff_input hlogs ho h hnone]
      exact unapproved_nil
    · refine .of_spared hspared ?_
      simpa only [Task.answers, if_neg hnone] using hno
  | edit _ _ _ _ | batch _ | stats _ => exact .of_spared hspared hno

/-- A call up to where it deals with what it has staged changes no file but
its logs. -/
theorem spared_staging (i : Invocation) (m : Machine) :
    m.Spared (logsOf i m) ((staging i).run.onMachine.run m).2 ∧
      ∀ done o, ((staging i).run.onMachine.run m).1 = .ok (done, o) → o.Keyed ∧
        (Unapproved (i.task.answers m.input) →
          Unapproved ((staging i).run.onMachine.run m).2.input) := by
  obtain ⟨hprepared, hlogs⟩ := spared_prepare i m
  unfold staging
  rw [run_bind]
  rcases hprepare : (prepare i).run.onMachine.run m with ⟨f | w, m'⟩
  · rw [hprepare] at hprepared
    exact ⟨hprepared, nofun⟩
  · rw [hprepare] at hprepared hlogs
    have hrecorded := Machine.spared_journal (startRecord i) hprepared.log
    have hspared := hprepared.trans hrecorded
    have hkeyed : Overlay.Keyed {} := List.nodup_nil
    have htask := spared_of_spares ((spares_runTask w i.task).mono (hlogs w rfl)) hkeyed hspared.log
    dsimp only
    rw [run_bind]
    have hjournal : (Work.ask (.journal (startRecord i)) : Work Host Unit).run.onMachine.run m' =
      (.ok (), ((Machine.journal (startRecord i)).run m').2) := rfl
    rw [hjournal]
    dsimp only
    rw [ExceptT.run_mk, Host.run_bind]
    refine ⟨hspared.trans htask.2, fun done o hdone => ⟨?_, fun hno => ?_⟩⟩
    · rcases hresult : ((runTask w i.task : Work Staged Bool).run.run {}).onMachine.run
          ((Machine.journal (startRecord i)).run m').2 with ⟨⟨f | b, o'⟩, m''⟩
      · rw [hresult] at hdone
        cases hdone
      · rw [hresult] at hdone htask
        cases hdone
        exact htask.1
    · refine unapproved_runTask (hlogs w rfl) hkeyed hspared.log ?_
      obtain hinput | hinput := hspared.input
      · rwa [hinput]
      · rw [hinput, Task.answers_nil]
        exact unapproved_nil

/-- A call that is reviewed, and that the user does not approve, leaves every
file but its logs as it was. There is one exception: something is staged, but
every file staged would be decoded as the same text as the file it replaces.
Then nothing can be seen, and the user is not asked. -/
theorem run_unapproved (i : Invocation) (m : Machine) (hreview : i.review = true)
    (htask : ∀ n, i.task ≠ .stats n) (hno : Unapproved (i.task.answers m.input)) :
    let logs := (logsOf i m).map (Disk.placeOf m.disk.workingDirectory)
    Disk.SameFiles logs m.disk ((run i).run.onMachine.run m).2.disk ∨
      ∃ done o m', (staging i).run.onMachine.run m = (.ok (done, o), m') ∧
        Disk.SameFiles logs m.disk m'.disk ∧ o.Unseen m'.disk := by
  intro logs
  obtain ⟨hstaged, hsettled⟩ := spared_staging i m
  rw [run_eq_staging hreview htask, run_bind]
  rcases hrun : (staging i).run.onMachine.run m with ⟨f | ⟨done, o⟩, m'⟩
  · rw [hrun] at hstaged
    exact .inl hstaged.disk
  · rw [hrun] at hstaged hsettled
    obtain ⟨hkeyed, hno'⟩ := hsettled done o rfl
    obtain hspared | hunseen := spared_settleStaged i.dryRun (hno' hno) hkeyed hstaged.log
    · left
      dsimp only
      have hrest : ((settling i (done, o)).run.onMachine.run m').2 =
          (((settleStaged i.dryRun).run.run o).onMachine.run m').2 := by
        unfold settling
        rw [ExceptT.run_mk, Host.run_bind]
        rfl
      rw [hrest]
      exact (hstaged.trans hspared).disk
    · exact .inr ⟨done, o, m', rfl, hstaged.disk, hunseen⟩

end Command

open Command

/-- A machine with one file, which is in the working directory. -/
def Machine.ofFile (content : Bytes) (input : Text) : Machine where
  disk := {
    nodes := [(["w"], .directory directoryMode), (["w", "a.txt"], .file content fileMode)]
    workingDirectory := ["w"] }
  input := input

/-- The call to replace a text in that file, which is to be reviewed. -/
def Command.reviewOf (old new : Text) : Invocation :=
  { review := true, logs := false,
    task := .edit "a.txt" (.words (some old)) (.words (some new)) none }

/-- A replacement that is turned down. -/
theorem rejected_edit_leaves_file :
    ∃ (i : Invocation) (m : Machine), i = reviewOf "a" "b" ∧ m = .ofFile [97] "n\n" ∧
      i.review = true ∧ (∀ n, i.task ≠ .stats n) ∧ Unapproved (i.task.answers m.input) ∧
      (Disk.SameFiles ((logsOf i m).map (Disk.placeOf m.disk.workingDirectory)) m.disk
          ((run i).run.onMachine.run m).2.disk ∨
        ∃ done o m', (staging i).run.onMachine.run m = (.ok (done, o), m') ∧
          Disk.SameFiles ((logsOf i m).map (Disk.placeOf m.disk.workingDirectory)) m.disk m'.disk ∧
          o.Unseen m'.disk) ∧
      ((run i).run.onMachine.run m).2.disk.file? ["w", "a.txt"] = some ([97], fileMode) := by
  have hno : Unapproved ((reviewOf "a" "b").task.answers (Machine.ofFile [97] "n\n").input) := by
    decide +kernel
  exact ⟨_, _, rfl, rfl, rfl, nofun, hno, run_unapproved (reviewOf "a" "b") _ rfl nofun hno,
    by decide +kernel⟩

/-- A byte that is no UTF-8 is replaced by the mark that is shown for it. The
user turns every change down, but the file is written. -/
theorem unseen_edit_written :
    ∃ (i : Invocation) (m : Machine), i = reviewOf [.ofByte 0xFF] "\uFFFD" ∧
      m = .ofFile [0xFF] "n\n" ∧ i.review = true ∧ Unapproved (i.task.answers m.input) ∧
      m.disk.file? ["w", "a.txt"] = some ([0xFF], fileMode) ∧
      ((run i).run.onMachine.run m).2.disk.file? ["w", "a.txt"] =
        some ([0xEF, 0xBF, 0xBD], fileMode) :=
  ⟨_, _, rfl, rfl, rfl, by decide +kernel, by decide +kernel, by decide +kernel⟩

end Amend
