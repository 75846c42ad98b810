/-
Amend.Proofs.Machines — what programs leave on a machine.

A program that only looks, prints and adds to logs leaves every other file of
the machine as it was (`Spared`), which is shown for one question and then for
a program by induction on it (`spared_run`). Starting a log changes one file
more (`spared_openLog`). A user who is asked about changes that alter something
and does not say yes is taken to have said no (`run_approve`).

  §1 Runs.
  §2 Machines whose files are spared.
  §3 Questions and programs.
  §4 Logs and approvals.
-/
import Amend.Host.Machine
import Amend.Proofs.Disks
import Amend.Proofs.Questions

namespace Amend

variable {α β : Type}

/-! ## §1 Runs -/

theorem Host.run_bind (x : Host α) (f : α → Host β) (m : Machine) :
    (x >>= f).onMachine.run m = (f (x.onMachine.run m).1).onMachine.run (x.onMachine.run m).2 := by
  induction x generalizing m with
  | done a => rfl
  | ask q next ih => exact ih _ _

namespace Command

/-- A fault ends the work, else what comes next goes on from where it ended. -/
theorem run_bind (x : Work Host α) (f : α → Work Host β) (m : Machine) :
    (x >>= f).run.onMachine.run m =
      match x.run.onMachine.run m with
      | (.ok a, m') => (f a).run.onMachine.run m'
      | (.error e, m') => (.error e, m') := by
  rw [ExceptT.run_bind, Host.run_bind]
  rcases x.run.onMachine.run m with ⟨_ | _, _⟩ <;> rfl

theorem run_ask (q : HostQuery α) (m : Machine) : (Work.ask q : Work Host α).run.onMachine.run m =
    (.ok (q.answer.run m).1, (q.answer.run m).2) := rfl

theorem run_demand (q : HostQuery (Except FileError α)) (m : Machine) :
    (Work.demand q : Work Host α).run.onMachine.run m =
      ((q.answer.run m).1.mapError .file, (q.answer.run m).2) := by
  unfold Work.demand
  rw [run_bind, run_ask]
  cases (q.answer.run m).1 <;> rfl

theorem run_staged_bind (x : Work Staged α) (f : α → Work Staged β) (o : Overlay) (m : Machine) :
    ((x >>= f).run.run o).onMachine.run m =
      match (x.run.run o).onMachine.run m with
      | ((.ok a, o'), m') => ((f a).run.run o').onMachine.run m'
      | ((.error e, o'), m') => ((.error e, o'), m') := by
  rw [ExceptT.run_bind, StateT.run_bind, Host.run_bind]
  rcases (x.run.run o).onMachine.run m with ⟨⟨_ | _, _⟩, _⟩ <;> rfl

end Command

/-! ## §2 Machines whose files are spared -/

namespace Machine

variable {logs : List Text} {m m' m'' : Machine}

/-- The machine keeps its log, if it has one, in one of these files. -/
def LogsIn (logs : List Text) (m : Machine) : Prop := ∀ path ∈ m.log, path ∈ logs

/-- The machine has the same files but these logs, and keeps its log, if it has
one, in one of them. What was left of its input is there still, or has been
read as a whole. -/
structure Spared (logs : List Text) (m m' : Machine) : Prop where
  disk : Disk.SameFiles (logs.map (Disk.placeOf m.disk.workingDirectory)) m.disk m'.disk
  input : m'.input = m.input ∨ m'.input = []
  logName : m'.logName = m.logName
  log : m'.LogsIn logs

namespace Spared

theorem refl (h : m.LogsIn logs) : Spared logs m m := ⟨.refl _ _, .inl rfl, rfl, h⟩

theorem trans (h : Spared logs m m') (h' : Spared logs m' m'') : Spared logs m m'' where
  disk := by
    have hrest := h'.disk
    rw [h.disk.working] at hrest
    exact h.disk.trans hrest
  input := by
    obtain hinput | hinput := h'.input
    · rw [hinput]
      exact h.input
    · exact .inr hinput
  logName := h'.logName.trans h.logName
  log := h'.log

theorem workingPath_eq (h : Spared logs m m') : m'.disk.workingPath = m.disk.workingPath := by
  unfold Disk.workingPath
  rw [h.disk.working]

theorem absolute_eq (h : Spared logs m m') (path : Text) :
    m'.disk.absolute path = m.disk.absolute path := by
  unfold Disk.absolute
  rw [h.workingPath_eq]

end Spared

/-! ## §3 Questions and programs -/

/-- An operation that is confined to the logs. -/
theorem spared_onDisk {x : Disk.Change α} {why : FileError → Prop}
    (hx : x.Confined m.disk.workingDirectory (logs.map (Disk.placeOf m.disk.workingDirectory)) why)
    (h : m.LogsIn logs) : Spared logs m ((onDisk x.run).run m).2 :=
  ⟨hx.keeps m.disk rfl, .inl rfl, rfl, h⟩

theorem run_journal (r : Record) (m : Machine) : (journal r).run m =
    ((), match m.log with
      | some path => ((onDisk (Disk.append path (r.logged m.timeOfDay)).run).run
          { m with records := m.records ++ [r] }).2
      | none => { m with records := m.records ++ [r] }) := by
  rcases m with ⟨_, _, _, _, _, _ | _⟩ <;> rfl

theorem spared_journal (r : Record) (h : m.LogsIn logs) : Spared logs m ((journal r).run m).2 := by
  have hrecorded : Spared logs m { m with records := m.records ++ [r] } :=
    ⟨.refl _ _, .inl rfl, rfl, h⟩
  rw [run_journal]
  dsimp only
  split
  · rename_i path hlog
    have hpath : Disk.placeOf m.disk.workingDirectory path ∈
        logs.map (Disk.placeOf m.disk.workingDirectory) :=
      List.mem_map_of_mem (h path hlog)
    exact hrecorded.trans (spared_onDisk (Disk.openFile_confined _ hpath) h)
  · exact hrecorded

theorem spared_journals (rs : List Record) (h : m.LogsIn logs) :
    Spared logs m ((rs.forM journal).run m).2 := by
  induction rs generalizing m with
  | nil => exact .refl h
  | cons r rs ih =>
    have hfirst := spared_journal r h
    exact hfirst.trans (ih hfirst.log)

/-- A question that changes no file but these logs. -/
theorem spared_answer {q : HostQuery α} (hq : q.LogsTo logs) (h : m.LogsIn logs) :
    Spared logs m (q.answer.run m).2 := by
  cases q with
  | write _ _ | makeDirs _ | openLog _ | approve _ => exact hq.elim
  | append path content =>
    exact spared_onDisk (Disk.appendMaking_confined content (List.mem_map_of_mem hq)) h
  | journal r => exact spared_journal r h
  | input => exact ⟨.refl _ _, .inr rfl, rfl, h⟩
  | read _ | has _ | isFile _ | now | «variable» _ | workingDirectory | print _ | complain _ =>
    exact ⟨.refl _ _, .inl rfl, rfl, h⟩

/-- A program that asks such questions alone. -/
theorem spared_run {x : Host α} {post : α → Prop} (hx : x.Asks (HostQuery.LogsTo logs) post)
    (h : m.LogsIn logs) :
    post (x.onMachine.run m).1 ∧ Spared logs m (x.onMachine.run m).2 := by
  induction x generalizing m with
  | done a => exact ⟨hx, .refl h⟩
  | ask q next ih =>
    have hfirst := spared_answer hx.1 h
    obtain ⟨hpost, hrest⟩ := ih _ (hx.2 _) hfirst.log
    exact ⟨hpost, hfirst.trans hrest⟩

/-! ## §4 Logs and approvals -/

theorem run_openLog (directory : Text) (m : Machine) :
    let path := Path.join directory m.logName
    ((openLog directory).run m).2 =
      match (onDisk (do
        Disk.makeDirs directory
        Disk.append path [] : Disk.Change Unit).run).run m with
      | (.ok (), m') => { m' with log := some (m'.disk.absolute path) }
      | (.error _, m') => m' := by
  intro path
  unfold openLog
  simp only [StateT.run_bind, StateT.run_get, pure_bind]
  rcases (onDisk (do Disk.makeDirs directory; Disk.append path [] : Disk.Change Unit).run).run m
    with ⟨_ | _, _⟩ <;> rfl

/-- A log that is started is one of the files that change. -/
theorem spared_openLog {directory : Text} (h : m.LogsIn logs)
    (hmade : Path.join directory m.logName ∈ logs)
    (hkept : m.disk.absolute (Path.join directory m.logName) ∈ logs) :
    Spared logs m ((openLog directory).run m).2 := by
  have hconfined : Disk.Change.Confined m.disk.workingDirectory
      (logs.map (Disk.placeOf m.disk.workingDirectory)) (fun _ => True)
      (do Disk.makeDirs directory; Disk.append (Path.join directory m.logName) []) :=
    .bind ((Disk.makeDirs_confined directory).mono fun _ _ => trivial) fun _ =>
      (Disk.openFile_confined _ (List.mem_map_of_mem hmade)).mono fun _ _ => trivial
  have hopened := spared_onDisk hconfined h
  rw [run_openLog]
  split
  · rename_i m' hrun
    rw [hrun] at hopened
    refine ⟨hopened.disk, hopened.input, hopened.logName, ?_⟩
    intro path hpath
    cases hpath
    rwa [hopened.absolute_eq]
  · rename_i m' hrun
    rwa [hrun] at hopened

/-- A user who does not say yes to changes of which one alters something is
taken to say no. -/
theorem run_approve {changes : List Change} (hstaged : Change.staged changes ≠ [])
    (hanswer : (Console.ask (Text.streamLines m.input)).1 = false) (h : m.LogsIn logs) :
    ((approve changes).run m).1 = false ∧ Spared logs m ((approve changes).run m).2 := by
  have hasked : Spared logs m { m with input := [], output := m.output ++
      (Approval.decide changes (.terminal m.noScreen m.input)).printed } :=
    ⟨.refl _ _, .inr rfl, rfl, h⟩
  refine ⟨?_, hasked.trans (spared_journals _ h)⟩
  show (Approval.decide changes (.terminal m.noScreen m.input)).approved = false
  simp [Approval.decide, hstaged, Console.review, hanswer]

end Machine

end Amend
