/-
Amend.Proofs.Questions — what programs ask.

Since a program is a tree of questions, what it may ask can be read off the
tree, whatever it is answered (`Action.Asks`). Tools add to no file but the
log that their workplace names (`asks_execute`). Settings are found by looking
only (`asks_load`). A task whose changes are staged writes no file and makes no
directory: besides that log it only looks, prints and records
(`spares_runTask`), so whoever answers it finds every other file as it was.

  §1 Programs.
  §2 Tools.
  §3 Commands.
  §4 Staged tasks.
-/
import Amend.Command.Run
import Amend.Proofs.Calls
import Amend.Proofs.Staging

namespace Amend

/-! ## §1 Programs -/

namespace Action

variable {Q : Type → Type} {α β : Type} {P P' : {γ : Type} → Q γ → Prop}

/-- Whatever it is answered, the program asks only such questions and ends
only in such results. -/
def Asks (P : {γ : Type} → Q γ → Prop) (post : α → Prop) : Action Q α → Prop
  | done a => post a
  | ask q next => P q ∧ ∀ b, (next b).Asks P post

theorem Asks.bind {mid : α → Prop} {post : β → Prop} {x : Action Q α} {f : α → Action Q β}
    (hx : x.Asks P mid) (hf : ∀ a, mid a → (f a).Asks P post) : (x >>= f).Asks P post := by
  induction x with
  | done a => exact hf a hx
  | ask q next ih => exact ⟨hx.1, fun b => ih b (hx.2 b)⟩

theorem Asks.mono {post : α → Prop} {x : Action Q α} (hx : x.Asks P post)
    (h : ∀ {γ : Type} (q : Q γ), P q → P' q) : x.Asks P' post := by
  induction x with
  | done a => exact hx
  | ask q next ih => exact ⟨h q hx.1, fun b => ih b (hx.2 b)⟩

end Action

/-! ## §2 Tools -/

/-- The question adds to no file but these logs. -/
def ToolQuery.LogsTo (logs : List Text) {β : Type} : ToolQuery β → Prop
  | .append path _ => path ∈ logs
  | _ => True

/-- Where a workplace has its results logged, if it has. -/
def Workplace.logs (w : Workplace) : List Text :=
  if w.settings.recordMetrics then [Metric.logPath w.base w.settings.metricsDir] else []

variable {logs : List Text}

namespace Step

variable {α β : Type}

/-- Whatever it is answered, the step adds to no file but these logs. -/
def LogsTo (logs : List Text) (x : Step α) : Prop :=
  x.run.Asks (ToolQuery.LogsTo logs) fun _ => True

theorem LogsTo.pure (a : α) : (Pure.pure a : Step α).LogsTo logs := trivial

theorem LogsTo.throw (e : Failure) : (MonadExcept.throw e : Step α).LogsTo logs := trivial

theorem LogsTo.ask_bind {q : ToolQuery α} {f : α → Step β} (hq : q.LogsTo logs)
    (hf : ∀ a, (f a).LogsTo logs) : (Step.ask q >>= f).LogsTo logs := ⟨hq, hf⟩

theorem LogsTo.demand_bind {q : ToolQuery (Except FileError α)} {f : α → Step β}
    (hq : q.LogsTo logs) (hf : ∀ a, (f a).LogsTo logs) : (demand q >>= f).LogsTo logs := by
  rw [demand, bind_assoc]
  refine ask_bind hq fun got => ?_
  cases got with
  | error e => exact .throw _
  | ok a => exact hf a

theorem LogsTo.writeBytes_bind {path : Text} (content : Except Utf8.Unencodable Bytes)
    {f : Unit → Step β} (hf : (f ()).LogsTo logs) : (writeBytes path content >>= f).LogsTo logs := by
  cases content with
  | error u => exact .throw _
  | ok bytes => exact demand_bind trivial fun _ => hf

theorem LogsTo.checkCancelled_bind {f : Unit → Step β} (hf : (f ()).LogsTo logs) :
    (checkCancelled >>= f).LogsTo logs := by
  rw [checkCancelled, bind_assoc]
  refine ask_bind trivial fun got => ?_
  cases got with
  | true => exact .throw _
  | false => exact hf

theorem LogsTo.journal_bind (rs : List Record) {f : Unit → Step β} (hf : (f ()).LogsTo logs) :
    (journal rs >>= f).LogsTo logs := by
  induction rs with
  | nil => exact hf
  | cons r rs ih =>
    rw [journal, bind_assoc]
    exact ask_bind trivial fun _ => ih

theorem logsTo_onFile (place : Text) (absent : Refusal) (records : Bytes → List Record)
    (decide : Bytes → Decision) : (onFile place absent records decide).LogsTo logs := by
  refine .ask_bind trivial fun there => ?_
  cases there with
  | false => exact .throw _
  | true =>
    refine .demand_bind trivial fun raw => .checkCancelled_bind (.journal_bind _ ?_)
    cases decide raw with
    | refuse why => exact .throw why
    | keep answer => exact .pure answer
    | rewrite content note answer =>
      refine .checkCancelled_bind (.writeBytes_bind content ?_)
      exact .journal_bind [note] (.pure answer)

end Step

theorem EditTool.logsTo_create (w : Workplace) (r : Request) (place : Text) :
    (create w r place).LogsTo logs := by
  refine .ask_bind trivial fun there => ?_
  cases there with
  | true => exact .throw _
  | false =>
    refine .checkCancelled_bind (.demand_bind trivial fun _ => .writeBytes_bind _ ?_)
    exact .journal_bind _ (.pure _)

namespace Tool

theorem logsTo_run (t : Tool) (w : Workplace) (fields : List (Value × Value)) :
    (run t w fields).LogsTo logs := by
  cases t with
  | edit =>
    show (EditTool.run w fields).LogsTo logs
    obtain ⟨r, hr, -⟩ | ⟨why, hwhy, -⟩ := EditTool.readRequest_eq fields
    · rw [EditTool.run, hr, pure_bind]
      dsimp only
      split
      · exact EditTool.logsTo_create w r _
      · by_cases hsame : LineEnding.normalize r.search = LineEnding.normalize r.replacement
        · simp only [EditTool.edit, if_pos hsame]
          exact .throw _
        · rw [EditTool.edit_eq_onFile hsame]
          exact Step.logsTo_onFile _ _ _ _
    · rw [EditTool.run, hwhy, Step.throw_bind]
      exact .throw why
  | diff =>
    show (DiffTool.run w fields).LogsTo logs
    obtain ⟨path, diff, blocks, -, -, -, hread⟩ | ⟨why, hwhy, -⟩ := DiffTool.readRequest_eq fields
    · rw [DiffTool.run, hread, bind_assoc]
      refine .journal_bind _ ?_
      rw [pure_bind, DiffTool.apply_eq_onFile]
      exact Step.logsTo_onFile _ _ _ _
    · rw [DiffTool.run, hwhy, Step.throw_bind]
      exact .throw why

theorem logsTo_attempt (t : Tool) (w : Workplace) (args : Value) :
    (attempt t w args).LogsTo logs := by
  refine .checkCancelled_bind ?_
  split
  · exact logsTo_run t w _
  · exact .throw _

theorem asks_note (args : Value) (record : Text → Record) (r : ToolResult) :
    (note args record r).Asks (ToolQuery.LogsTo logs) fun _ => True := by
  rw [note]
  split
  · exact trivial
  · exact trivial
  · exact ⟨trivial, fun _ => trivial⟩

theorem asks_settle (t : Tool) (w : Workplace) (args : Value) :
    (settle t w args).Asks (ToolQuery.LogsTo logs) fun _ => True := by
  refine Action.Asks.bind (logsTo_attempt t w args) fun reached _ => ?_
  cases reached with
  | ok r => exact trivial
  | error why =>
    cases why with
    | refused r => exact asks_note args _ _
    | file e =>
      dsimp only
      split
      · exact trivial
      · exact asks_note args _ _
    | fault f => exact trivial

theorem asks_log (t : Tool) (w : Workplace) (args : Value) (r : ToolResult) :
    (log t w args r).Asks (ToolQuery.LogsTo w.logs) fun _ => True := by
  unfold log
  split
  · exact trivial
  · rename_i hasked
    have hlog : Metric.logPath w.base w.settings.metricsDir ∈ w.logs := by
      simp [Workplace.logs, show w.settings.recordMetrics = true by simpa using hasked]
    refine ⟨trivial, fun time => ⟨hlog, fun got => ?_⟩⟩
    cases got with
    | ok _ => exact trivial
    | error e =>
      dsimp only [Action.bind]
      split
      · exact trivial
      · exact ⟨trivial, fun _ => trivial⟩

/-- A call adds to no file but the log of its workplace. -/
theorem asks_execute (t : Tool) (w : Workplace) (args : Value) :
    (execute t w args).Asks (ToolQuery.LogsTo w.logs) fun _ => True := by
  refine Action.Asks.bind (asks_settle t w args) fun answer _ => ?_
  cases answer with
  | error f => exact trivial
  | ok r =>
    refine Action.Asks.bind (asks_log t w args r) fun logged _ => ?_
    cases logged with
    | error f => exact trivial
    | ok _ => exact trivial

end Tool

/-! ## §3 Commands -/

/-- The question changes no file but these logs, and asks for no approval. -/
def HostQuery.LogsTo (logs : List Text) {β : Type} : HostQuery β → Prop
  | .write .. | .makeDirs _ | .openLog _ | .approve _ => False
  | .append path _ => path ∈ logs
  | _ => True

theorem HostQuery.LogsTo.mono {logs' : List Text} {β : Type} {q : HostQuery β} (hq : q.LogsTo logs)
    (h : ∀ path ∈ logs, path ∈ logs') : q.LogsTo logs' := by
  cases q with
  | append path content => exact h path hq
  | _ => exact hq

theorem Host.asks_ask_bind {α β : Type} {q : HostQuery α} {f : α → Host β} {post : β → Prop}
    (hq : q.LogsTo logs) (hf : ∀ a, (f a).Asks (HostQuery.LogsTo logs) post) :
    (Host.ask q >>= f).Asks (HostQuery.LogsTo logs) post := ⟨hq, hf⟩

namespace Settings

theorem asks_firstFile (paths : List Text) :
    (firstFile? paths).Asks (HostQuery.LogsTo logs) fun _ => True := by
  induction paths with
  | nil => exact trivial
  | cons path paths ih =>
    refine Host.asks_ask_bind trivial fun there => ?_
    split
    · exact trivial
    · exact ih

theorem asks_findFile (given : Text) :
    (findFile given).Asks (HostQuery.LogsTo logs) fun _ => True :=
  Host.asks_ask_bind trivial fun _ => Host.asks_ask_bind trivial fun _ => asks_firstFile _

theorem asks_fileDataAt (found : Option Text) :
    (fileDataAt found).Asks (HostQuery.LogsTo logs) fun _ => True := by
  cases found with
  | none => exact trivial
  | some path => exact Host.asks_ask_bind trivial fun _ => trivial

theorem asks_environmentOf (keys : List String) :
    (environmentOf keys).Asks (HostQuery.LogsTo logs) fun _ => True := by
  induction keys with
  | nil => exact trivial
  | cons key keys ih =>
    refine Host.asks_ask_bind trivial fun value => ih.bind fun rest _ => ?_
    cases value with
    | none => exact trivial
    | some t => exact trivial

/-- Settings are found by looking only. -/
theorem asks_load (given : Text) :
    (load given).Asks (HostQuery.LogsTo logs) fun _ => True :=
  (asks_findFile given).bind fun found _ => (asks_fileDataAt found).bind fun _ _ =>
    (asks_environmentOf _).bind fun _ _ => trivial

end Settings

/-! ## §4 Staged tasks -/

/-- Every path that has a pending write has one only. -/
def Overlay.Keyed (o : Overlay) : Prop := o.pending.keys.Nodup

/-- A question of a tool whose changes are staged. -/
theorem asks_answer {β : Type} {q : ToolQuery β} (hq : q.LogsTo logs) (n : Nat) {o : Overlay}
    (ho : o.Keyed) : (((q.answer none : StateT Nat Command.Staged β).run n).run o).Asks
      (HostQuery.LogsTo logs) fun r => r.2.Keyed := by
  cases q with
  | read path =>
    show Action.Asks _ _ (((FileStore.read path : Command.Staged (Except FileError Bytes)) >>=
      fun got => pure (got, n)).run o)
    simp only [FileStore.read, bind_assoc, StateT.run_bind, StateT.run_get, pure_bind]
    split
    · exact ho
    · exact ⟨trivial, fun _ => ho⟩
  | has path =>
    show Action.Asks _ _ (((if o.pending.has path then pure true
      else StateT.lift (FileStore.has path) : Command.Staged _) >>= fun got => pure (got, n)).run o)
    split
    · exact ho
    · exact ⟨trivial, fun _ => ho⟩
  | write path content => exact Table.nodup_keys_put ho path content
  | makeDirs path => exact ho
  | cancelled => exact ho
  | journal r => exact ⟨trivial, fun _ => ho⟩
  | now => exact ⟨trivial, fun _ => ho⟩
  | append path content => exact ⟨hq, fun _ => ho⟩

/-- A tool whose changes are staged. -/
theorem asks_runTool {α : Type} {a : Action ToolQuery α} {post : α → Prop}
    (ha : a.Asks (ToolQuery.LogsTo logs) post) {o : Overlay} (ho : o.Keyed) :
    ((runTool none a : Command.Staged α).run o).Asks (HostQuery.LogsTo logs) fun r => r.2.Keyed := by
  have hrun (n : Nat) : ∀ {o : Overlay}, o.Keyed →
      (((Action.run (m := StateT Nat Command.Staged) (ToolQuery.answer none) a).run n).run o).Asks
        (HostQuery.LogsTo logs) fun r => r.2.Keyed := by
    induction a generalizing n with
    | done a => exact fun ho => ho
    | ask q next ih =>
      intro o ho
      rw [Action.run, StateT.run_bind, StateT.run_bind]
      exact (asks_answer ha.1 n ho).bind fun r hr => ih r.1.1 (ha.2 r.1.1) r.1.2 hr
  rw [runTool, StateT.run'_eq, StateT.run_map]
  exact (hrun 0 ho).bind fun r hr => hr

namespace Command

/-- The work, which is staged, changes no file but these logs, and asks for no
approval. -/
def Spares (logs : List Text) {α : Type} (x : Work Staged α) : Prop :=
  ∀ o : Overlay, o.Keyed → (x.run.run o).Asks (HostQuery.LogsTo logs) fun r => r.2.Keyed

namespace Spares

variable {α β : Type}

theorem pure (a : α) : Spares logs (Pure.pure a : Work Staged α) := fun _ ho => ho

theorem throw (f : Fault) : Spares logs (MonadExcept.throw f : Work Staged α) := fun _ ho => ho

theorem bind {x : Work Staged α} {f : α → Work Staged β} (hx : Spares logs x)
    (hf : ∀ a, Spares logs (f a)) : Spares logs (x >>= f) := by
  intro o ho
  rw [ExceptT.run_bind, StateT.run_bind]
  refine (hx o ho).bind fun r hr => ?_
  obtain ⟨e | a, o'⟩ := r
  · exact hr
  · exact hf a o' hr

theorem mono {logs' : List Text} {x : Work Staged α} (hx : Spares logs x)
    (h : ∀ path ∈ logs, path ∈ logs') : Spares logs' x :=
  fun o ho => (hx o ho).mono fun _ hq => hq.mono h

theorem ask {q : HostQuery α} (hq : q.LogsTo logs) : Spares logs (Work.ask q : Work Staged α) :=
  fun _ ho => ⟨hq, fun _ => ho⟩

theorem demand {q : HostQuery (Except FileError α)} (hq : q.LogsTo logs) :
    Spares logs (Work.demand q : Work Staged α) := by
  refine .bind (.ask hq) fun got => ?_
  cases got with
  | ok a => exact .pure a
  | error e => exact .throw _

theorem ofExcept (r : Except Fault α) : Spares logs (Work.ofExcept r : Work Staged α) := by
  cases r with
  | ok a => exact .pure a
  | error f => exact .throw f

theorem say (success : Bool) (line : Text) : Spares logs (Work.say success line) := by
  cases success with
  | true => exact .ask trivial
  | false => exact .ask trivial

end Spares

variable (w : Workplace)

theorem spares_callTool (t : Tool) (args : List (Value × Value)) :
    Spares w.logs (callTool t w args) :=
  fun _ ho => asks_runTool (Tool.asks_execute t w (.mapping args)) ho

theorem spares_callAndSay (t : Tool) (args : List (Value × Value)) :
    Spares w.logs (callAndSay t w args) := by
  refine .bind (spares_callTool w t args) fun r => ?_
  exact .bind (.say r.success r.text) fun _ => .pure r.success

theorem spares_readWhole (path : Text) : Spares logs (readWhole path : Work Staged Text) := by
  refine .bind (.demand trivial) fun raw => ?_
  split
  · exact .pure _
  · exact .throw _

theorem spares_value (g : Given) : Spares logs (g.value : Work Staged Value) := by
  cases g with
  | words t => exact .pure _
  | file path =>
    cases path with
    | none => exact .throw _
    | some path => exact .bind (spares_readWhole path) fun t => .pure _

theorem spares_runEdit (file : Text) (old new : Given) (expected : Option (Option Int)) :
    Spares w.logs (runEdit w file old new expected) := by
  refine .bind (spares_value old) fun old => .bind (spares_value new) fun new => ?_
  exact spares_callAndSay w .edit _

theorem spares_runDiff (file : Text) (diffFile : Option Text) :
    Spares w.logs (runDiff w file diffFile) := by
  unfold runDiff
  split
  · exact .bind (spares_readWhole _) fun diff => spares_callAndSay w .diff _
  · exact .bind (.ask trivial) fun diff => spares_callAndSay w .diff _

theorem spares_runRequests (total : Nat) (plan : Plan) (number : Nat) :
    Spares w.logs (runRequests w total number plan) := by
  induction plan generalizing number with
  | nil => exact .pure 0
  | cons r rs ih =>
    refine .bind (spares_callTool w _ r) fun result => ?_
    split
    · exact .throw _
    · refine .bind (.say _ _) fun _ => .bind (ih (number + 1)) fun n => .pure _

theorem spares_runBatch (plan : Text) : Spares w.logs (runBatch w plan) := by
  refine .bind (.ask trivial) fun content => ?_
  split
  · refine .bind (.ofExcept _) fun words => .bind (.say _ _) fun _ => .pure false
  · exact .bind (spares_runRequests w _ _ 1) fun n => .bind (.say _ _) fun _ => .pure _

/-- A task whose changes are staged changes no file but the log of its
workplace, and asks for no approval. -/
theorem spares_runTask (t : Task) : Spares w.logs (runTask w t) := by
  cases t with
  | edit file old new expected => exact spares_runEdit w file old new expected
  | applyDiff file diffFile => exact spares_runDiff w file diffFile
  | batch plan => exact spares_runBatch w plan
  | stats n => exact .pure true

end Command

end Amend
