/-
Amend.Proofs.Metrics — the figures of a log are those of the calls.

Every call that gives a result adds one line of JSON to the log
(`Logged.call`), and nothing else that a tool does touches the disk of the
logs (`follow_keeps_disk`). So after any calls the log holds a line for each,
in order (`logged_runAt`). Read back, the lines are the entries that were
logged, and what the figures say of the newest is said of the results of the
last calls (`stats_tell_last_results`).

  §1 The entry of a result.
  §2 Reading the log.
  §3 Calls and their lines.
  §4 The figures of the last calls.
-/
import Amend.Command.Run
import Amend.Proofs.Coupling
import Amend.Proofs.Figures
import Amend.Proofs.Logs
import Amend.Proofs.Machines
import Amend.Proofs.Questions
import Amend.Proofs.Serializing
import Amend.Proofs.Staging
import Amend.Proofs.Streams

namespace Amend

open Text

/-! ## §1 The entry of a result -/

/-- The counts in a result are not too long to be read back. -/
def Details.Short : Details → Prop
  | .nothing | .created => True
  | .replaced _ count => (Text.ofNat count).length ≤ digitLimit
  | .patched _ total applied =>
    (Text.ofNat total).length ≤ digitLimit ∧ (Text.ofNat applied).length ≤ digitLimit

instance (d : Details) : Decidable d.Short :=
  match d with
  | .nothing | .created => .isTrue trivial
  | .replaced _ _ => inferInstanceAs (Decidable (_ ≤ _))
  | .patched _ _ _ => inferInstanceAs (Decidable (_ ∧ _))

namespace Metric

/-- The fields of the entry of a result. -/
def entryFields (t : Tool) (args : Value) (r : ToolResult) : List (Text × Value) :=
  let file : Value :=
    match Tool.pathGiven args with
    | .text path => .text path
    | _ => .text []
  ([("tool", .text t.name), ("file", file), ("success", .bool r.success),
    ("error_code", (r.code.map fun c => .ofString c.name).getD .null)] ++ r.details.fields).map
      fun (k, v) => (Text.ofString k, v)

/-- The fields of the entry that a result is logged as at a time. -/
def loggedFields (time : Text) (t : Tool) (args : Value) (r : ToolResult) : List (Text × Value) :=
  (Text.ofString "timestamp", .text time) :: entryFields t args r

variable {time : Text} {t : Tool} {args : Value} {r : ToolResult}

theorem nodup_keys_loggedFields : ((loggedFields time t args r).map Prod.fst).Nodup := by
  have hnames : ∀ names ∈ [[], ["created"], ["strategy", "replacements"],
      ["strategy", "blocks_total", "blocks_applied"]],
      ((["timestamp", "tool", "file", "success", "error_code"] ++ names).map Text.ofString).Nodup := by
    decide +kernel
  rcases r with ⟨_, _, _, _ | _ | _ | _⟩
  · exact hnames [] (by decide)
  · exact hnames ["created"] (by decide)
  · exact hnames ["strategy", "replacements"] (by decide)
  · exact hnames ["strategy", "blocks_total", "blocks_applied"] (by decide)

theorem keyed_entryFields : Json.keyed (entryFields t args r) = Tool.entry t args r := by
  simp only [Json.keyed, entryFields, Tool.entry, List.map_map]
  rfl

theorem keyed_loggedFields : Json.keyed (loggedFields time t args r) =
    (Value.ofString "timestamp", .text time) :: Tool.entry t args r :=
  congrArg _ keyed_entryFields

/-- The line of a result is its fields written as JSON. -/
theorem line_entry : line time (Tool.entry t args r) =
    Json.write (.mapping (Json.keyed (loggedFields time t args r))) ++ [lf] := by
  have hput := Json.foldl_put_keyed (show (([(Text.ofString "timestamp", Value.text time)] ++
    entryFields t args r).map Prod.fst).Nodup from nodup_keys_loggedFields)
  rw [line, ← keyed_entryFields]
  exact congrArg (fun es => Json.write (.mapping es) ++ [lf]) hput

theorem loggable_loggedFields (h : r.details.Short) :
    ∀ f ∈ loggedFields time t args r, Json.Loggable f.2 := by
  have hfile : Json.Loggable (match Tool.pathGiven args with
      | .text path => .text path
      | _ => .text []) := by
    split
    · exact .text _
    · exact .text []
  have hcode : Json.Loggable ((r.code.map fun c => Value.ofString c.name).getD .null) := by
    cases r.code with
    | none => exact .null
    | some c => exact .text _
  have hdetails : ∀ e ∈ r.details.fields, Json.Loggable e.2 := by
    cases hr : r.details with
    | nothing => exact nofun
    | created => exact List.forall_mem_singleton.mpr (.bool true)
    | replaced s n =>
      rw [hr] at h
      exact List.forall_mem_cons.mpr ⟨.text _, List.forall_mem_singleton.mpr (.int h)⟩
    | patched s total applied =>
      rw [hr] at h
      exact List.forall_mem_cons.mpr ⟨.text _, List.forall_mem_cons.mpr ⟨.int h.1,
        List.forall_mem_singleton.mpr (.int h.2)⟩⟩
  refine List.forall_mem_cons.mpr ⟨.text time, List.forall_mem_map.mpr ?_⟩
  refine List.forall_mem_append.mpr ⟨?_, hdetails⟩
  simp only [List.forall_mem_cons]
  exact ⟨.text _, hfile, .bool _, hcode, nofun⟩

theorem field?_success :
    Value.field? (Json.keyed (loggedFields time t args r)) "success" = some (.bool r.success) := by
  rw [keyed_loggedFields, Tool.entry]
  simp [field?_cons]

/-- What is not said of every result is looked up in the details. -/
theorem field?_details {key : String}
    (h : key ∉ ["timestamp", "tool", "file", "success", "error_code"]) :
    Value.field? (Json.keyed (loggedFields time t args r)) key =
      Value.field? (r.details.fields.map fun (k, v) => (Value.ofString k, v)) key := by
  simp only [List.mem_cons, List.not_mem_nil, not_or] at h
  rw [keyed_loggedFields, Tool.entry]
  simp [field?_cons, h]

theorem less_int (a b : Int) : Value.less (.int a) (.int b) = .ok (decide (a < b)) := by
  have hcompare : (some (compare a b) == some Ordering.lt) = decide (a < b) := by
    rw [Bool.eq_iff_iff, beq_iff_eq, Option.some_inj, Int.compare_eq_lt, decide_eq_true_iff]
  rw [Value.less]
  · exact congrArg Except.ok hcompare
  all_goals exact nofun

theorem mapError_less_int (f : Value.Unordered → Fault) (a b : Int) :
    (Value.less (.int a) (.int b)).mapError f = .ok (decide (a < b)) := by
  rw [less_int]
  rfl

theorem plain_keys_loggedFields : ∀ f ∈ loggedFields time t args r, Json.joined f.1 = f.1 := by
  intro f hf
  obtain rfl | hf := List.mem_cons.mp hf
  · exact Json.joined_ofString _
  · obtain ⟨e, -, rfl⟩ := List.mem_map.mp hf
    exact Json.joined_ofString _

/-- What is read back of the fields are the fields that the same result is
logged as at another time for another request. -/
theorem exists_reread_loggedFields : ∃ args',
    (loggedFields time t args r).map Json.rereadField = loggedFields (Json.joined time) t args' r := by
  have htext (key w : String) : Json.rereadField (Text.ofString key, .text (Text.ofString w)) =
      (Text.ofString key, .text (Text.ofString w)) :=
    congrArg (fun u => (Text.ofString key, Value.text u)) (Json.joined_ofString w)
  have hdetails : (r.details.fields.map fun (k, v) => (Text.ofString k, v)).map Json.rereadField =
      r.details.fields.map fun (k, v) => (Text.ofString k, v) := by
    cases r.details with
    | nothing | created => rfl
    | replaced s n => exact congrArg (· :: _) (htext _ _)
    | patched s total applied => exact congrArg (· :: _) (htext _ _)
  have hname : Json.rereadField (Text.ofString "tool", .text t.name) =
      (Text.ofString "tool", .text t.name) := by
    cases t <;> exact htext _ _
  have hcode : Json.rereadField
      (Text.ofString "error_code", (r.code.map fun c => Value.ofString c.name).getD .null) =
        (Text.ofString "error_code", (r.code.map fun c => Value.ofString c.name).getD .null) := by
    cases r.code with
    | none => rfl
    | some c => exact htext _ _
  obtain ⟨args', hfile⟩ : ∃ args', Json.rereadField (Text.ofString "file",
      match Tool.pathGiven args with
      | .text path => .text path
      | _ => .text []) = (Text.ofString "file",
      match Tool.pathGiven args' with
      | .text path => .text path
      | _ => .text []) := by
    split
    · rename_i path _
      refine ⟨.mapping [(.ofString "file_path", .text (Json.joined path))], ?_⟩
      simp [Tool.pathGiven, field?_cons, Json.rereadField, Json.reread]
    · exact ⟨.null, rfl⟩
  refine ⟨args', ?_⟩
  simp only [loggedFields, entryFields, List.cons_append, List.nil_append, List.map_cons, hname,
    hfile, hcode, hdetails]
  rfl

/-- The fields tell of the result. -/
theorem reports_loggedFields : Reports (Json.keyed (loggedFields time t args r)) r := by
  have hnone (key : String) : Value.field? [] key = none := rfl
  have hsuccess : succeeded (Json.keyed (loggedFields time t args r)) = r.success := by
    rw [succeeded, field?_success]
    rfl
  refine ⟨hsuccess, ?_, ?_⟩
  · rw [isPartial, hsuccess]
    dsimp only
    rw [field?_details (show "blocks_applied" ∉ _ by decide),
      field?_details (show "blocks_total" ∉ _ by decide), ToolResult.isPartly]
    cases r.success with
    | false => rfl
    | true =>
      -- Only a patched result tells of blocks; without them none is fewer than none.
      cases r.details with
      | nothing => simp [Details.fields, hnone, mapError_less_int]
      | created => simp [Details.fields, hnone, field?_cons, mapError_less_int]
      | replaced s n => simp [Details.fields, hnone, field?_cons, mapError_less_int]
      | patched s total applied =>
        simp [Details.fields, field?_cons, mapError_less_int]
  · rw [field?_details (by decide), ToolResult.strategy?]
    cases r.details with
    | nothing => rfl
    | created => simp [Details.fields, hnone, field?_cons]
    | replaced s n => simp [Details.fields, field?_cons, strategyValue]
    | patched s total applied => simp [Details.fields, field?_cons, strategyValue]

theorem reports_reread :
    Reports (Json.keyed ((loggedFields time t args r).map Json.rereadField)) r := by
  obtain ⟨args', h⟩ := @exists_reread_loggedFields time t args r
  rw [h]
  exact reports_loggedFields

end Metric

/-! ## §2 Reading the log -/

namespace Text

/-- Lines that are closed are read back, and an empty one after them. -/
theorem lines_closedLines {ls : List Text} (h : ∀ l ∈ ls, lf ∉ l) :
    lines (closedLines ls) = ls ++ [[]] := by
  have hunlines : closedLines ls = unlines (ls ++ [[]]) := by
    rw [unlines_append ls (List.cons_ne_nil [] []), unlines_singleton, List.append_nil]
  have hplain : ∀ l ∈ ls ++ [[]], lf ∉ l :=
    List.forall_mem_append.mpr ⟨h, List.forall_mem_singleton.mpr List.not_mem_nil⟩
  rw [hunlines, lines_unlines_of_notMem (by simp) hplain]

end Text

namespace Metric

/-- A line of the log, written of fields that are read back. -/
structure LineOf (l : Text) (fields : List (Text × Value)) : Prop where
  written : l = Json.write (.mapping (Json.keyed fields))
  ne_nil : fields ≠ []
  nodup_keys : (fields.map Prod.fst).Nodup
  plain_keys : ∀ f ∈ fields, Json.joined f.1 = f.1
  loggable : ∀ f ∈ fields, Json.Loggable f.2

theorem LineOf.printable {l : Text} {fields : List (Text × Value)} (h : LineOf l fields) :
    ∀ a ∈ l, Json.Printable a := by
  rw [h.written]
  exact Json.printable_write _

theorem notMem_of_printable {l : Text} (h : ∀ a ∈ l, Json.Printable a) : lf ∉ l ∧ cr ∉ l :=
  ⟨fun hmem => absurd (h lf hmem).low (by decide), fun hmem => absurd (h cr hmem).low (by decide)⟩

theorem ascii_of_printable {a : Symbol} (h : Json.Printable a) : a.Ascii := by
  obtain ⟨c, rfl⟩ := h.char
  exact ⟨c, rfl, Nat.lt_trans h.high (by decide)⟩

variable {ls : List Text} {entries : List (List (Text × Value))}

theorem printable_lines (h : List.Forall₂ LineOf ls entries) :
    ∀ l ∈ ls, ∀ a ∈ l, Json.Printable a := by
  induction h with
  | nil => exact nofun
  | cons head _ ih => exact List.forall_mem_cons.mpr ⟨head.printable, ih⟩

theorem valuesOf_lines (h : List.Forall₂ LineOf ls entries) :
    valuesOf (ls ++ [[]]) =
      .ok (entries.map fun fields => .mapping (Json.keyed (fields.map Json.rereadField))) := by
  induction h with
  | nil => rfl
  | @cons l fields ls entries head tail ih =>
    have hread := Json.read_write head.ne_nil head.nodup_keys head.plain_keys head.loggable
    have hne : Json.write (.mapping (Json.keyed fields)) ≠ [] := by
      rw [Json.write_mapping]
      exact List.cons_ne_nil _ _
    rw [List.cons_append, valuesOf, head.written]
    simp only [Json.trim_write_mapping, hne, if_false, hread, ih]
    rfl

/-- The values in a log are those of its lines. -/
theorem values_log (h : List.Forall₂ LineOf ls entries) : values (Utf8.encode (closedLines ls)) =
    .ok (entries.map fun fields => .mapping (Json.keyed (fields.map Json.rereadField))) := by
  have hprintable := printable_lines h
  have hmem {a : Symbol} (ha : a ∈ closedLines ls) : a = lf ∨ Json.Printable a := by
    obtain ⟨l, hl, ha⟩ := List.mem_flatMap.mp ha
    obtain ha | ha := List.mem_append.mp ha
    · exact .inr (hprintable l hl a ha)
    · exact .inl (List.mem_singleton.mp ha)
  have hascii : ∀ a ∈ closedLines ls, a.Ascii := fun a ha =>
    (hmem ha).elim (fun heq => ⟨'\n', heq, by decide⟩) ascii_of_printable
  have hcr : cr ∉ closedLines ls := fun hcr =>
    (hmem hcr).elim (by decide) fun h => absurd h.low (by decide)
  rw [values, Stream.read_ascii hascii hcr]
  dsimp only
  rw [lines_closedLines fun l hl => (notMem_of_printable (hprintable l hl)).1, valuesOf_lines h]

/-- The newest of at least one are the last. -/
theorem newest_eq_drop {n : Nat} (hn : 1 ≤ n) (vs : List Value) :
    newest n vs = vs.drop (vs.length - n) := by
  have hstart : place vs.length (-n) = vs.length - n := by
    rw [place, if_pos (by omega)]
    omega
  have hstop : place vs.length vs.length = vs.length := by
    rw [place, if_neg (by omega)]
    omega
  rw [newest, part, hstart, hstop]
  exact List.take_of_length_le (by simp)

end Metric

/-! ## §3 Calls and their lines -/

open Stateful (exec)

section Calls

variable {σ α : Type} [FileStore (StateM σ)] {signal : Signal} {w : Workplace}

theorem Site.reply_keeps_disk (signal : Signal) (q : ToolQuery α) (hq : q.LogsTo []) (n : Nat)
    (s : Site σ) :
    (q.reply (m := StateM (Site σ)) signal (n, s)).2.2.disk = s.disk ∧
      (q.reply (m := StateM (Site σ)) signal (n, s)).2.2.clock = s.clock := by
  cases q with
  | append path content => exact absurd hq List.not_mem_nil
  | cancelled => cases signal <;> exact ⟨rfl, rfl⟩
  | _ => exact ⟨rfl, rfl⟩

/-- A program that adds to no log leaves the disk of the logs alone. -/
theorem follow_keeps_disk (signal : Signal) {post : α → Prop} {x : Action ToolQuery α}
    (h : x.Asks (ToolQuery.LogsTo []) post) (n : Nat) (s : Site σ) :
    (x.follow (StateM (Site σ)) signal (n, s)).2.2.disk = s.disk ∧
      (x.follow (StateM (Site σ)) signal (n, s)).2.2.clock = s.clock := by
  induction x generalizing n s with
  | done a => exact ⟨rfl, rfl⟩
  | ask q next ih =>
    obtain ⟨hdisk, hclock⟩ := Site.reply_keeps_disk signal q h.1 n s
    rw [Action.follow_ask]
    obtain ⟨hdisk', hclock'⟩ := ih _ (h.2 _) (q.reply (m := StateM (Site σ)) signal (n, s)).2.1
      (q.reply (m := StateM (Site σ)) signal (n, s)).2.2
    exact ⟨hdisk'.trans hdisk, hclock'.trans hclock⟩

theorem follow_now (n : Nat) (s : Site σ) :
    (Action.query .now).follow (StateM (Site σ)) signal (n, s) = (s.clock, n, s) := rfl

theorem follow_append (path : Text) (content : Bytes) (n : Nat) (s : Site σ) :
    (Action.query (.append path content)).follow (StateM (Site σ)) signal (n, s) =
      (((Disk.appendMaking path content).run.run s.disk).1, n,
        { s with disk := ((Disk.appendMaking path content).run.run s.disk).2 }) := by
  rw [Action.query, Action.follow_ask]
  rfl

/-- A result is logged as one line. -/
theorem follow_log (signal : Signal) (hrecord : w.settings.recordMetrics = true) (t : Tool)
    (args : Value) (r : ToolResult) (n : Nat) (s : Site σ) :
    ((t.log w args r).follow (StateM (Site σ)) signal (n, s)).2.2.disk =
      ((Disk.appendMaking (Metric.logPath w.base w.settings.metricsDir)
        (Utf8.encode (Metric.line s.clock (t.entry args r)))).run.run s.disk).2 := by
  rw [Tool.log, hrecord, Bool.not_true, if_neg Bool.false_ne_true, Action.follow_bind, follow_now,
    Action.follow_bind, follow_append]
  generalize (Disk.appendMaking (Metric.logPath w.base w.settings.metricsDir)
    (Utf8.encode (Metric.line s.clock (t.entry args r)))).run.run s.disk = appended
  obtain ⟨e | ⟨⟩, d⟩ := appended
  · dsimp only
    split
    · rfl
    · rfl
  · rfl

theorem disk_of_execute (hrecord : w.settings.recordMetrics = true) {t : Tool} {args : Value}
    {r : ToolResult} {s s' : Site σ}
    (h : exec (runTool (m := StateM (Site σ)) signal (t.execute w args)) s = (.ok r, s')) :
    s'.disk = ((Disk.appendMaking (Metric.logPath w.base w.settings.metricsDir)
        (Utf8.encode (Metric.line s.clock (t.entry args r)))).run.run s.disk).2 := by
  obtain ⟨hdisk, hclock⟩ := follow_keeps_disk signal (Tool.asks_settle t w args) 0 s
  rw [exec_runTool, Tool.execute, Action.follow_bind] at h
  generalize (Tool.settle t w args).follow (StateM (Site σ)) signal (0, s) = settled at h hdisk hclock
  obtain ⟨e | r', n, s₁⟩ := settled
  · cases (Prod.mk.inj h).1
  · dsimp only at h hdisk hclock
    rw [Action.follow_bind] at h
    have hlog := follow_log signal hrecord t args r' n s₁
    generalize (t.log w args r').follow (StateM (Site σ)) signal (n, s₁) = logged at h hlog
    obtain ⟨e | ⟨⟩, n', s₂⟩ := logged
    · cases (Prod.mk.inj h).1
    · cases h
      rw [← hdisk, ← hclock]
      exact hlog

/-- Carries calls out, each at its time. -/
def runAt (w : Workplace) (calls : List (Text × Call)) :
    StateM (Site σ) (List (Except Fault ToolResult)) :=
  calls.mapM fun (time, c) => do
    modify fun s => { s with clock := time }
    runTool c.signal (c.tool.execute w c.args)

theorem run_runAt_cons (time : Text) (c : Call) (calls : List (Text × Call)) (s : Site σ) :
    (runAt w ((time, c) :: calls)).run s =
      let first := exec (runTool (m := StateM (Site σ)) c.signal (c.tool.execute w c.args))
        { s with clock := time }
      (first.1 :: ((runAt w calls).run first.2).1, ((runAt w calls).run first.2).2) := by
  rw [runAt, List.mapM_cons]
  rfl

/-- The fields that calls with these results are logged as. -/
def entriesOf (calls : List (Text × Call)) (rs : List ToolResult) : List (List (Text × Value)) :=
  List.zipWith (fun e r => Metric.loggedFields e.1 e.2.tool e.2.args r) calls rs

/-- The line that fields are written as. -/
def lineOf (fields : List (Text × Value)) : Text := Json.write (.mapping (Json.keyed fields))

/-- A disk on which lines were logged at a place: the disk it was at first, or
the one where the directory of the log is made, with the log. -/
structure Logged (start made : Disk) (place : Place) (ls : List Text) (d : Disk) : Prop where
  nothing : ls = [] → d = start
  lines : ls ≠ [] → d = made.putNode place (.file (Utf8.encode (closedLines ls)) fileMode)

/-- One line more is logged. -/
theorem Logged.append {start made d : Disk} {path : Text} {place : Place} {ls : List Text}
    (hroom : made.Room path place)
    (hfirst : ∀ content : Bytes, (Disk.appendMaking path content).run.run start =
      (.ok (), made.putNode place (.file content fileMode)))
    (h : Logged start made place ls d) (l : Text) :
    Logged start made place (ls ++ [l])
      ((Disk.appendMaking path (Utf8.encode (l ++ [lf]))).run.run d).2 := by
  refine ⟨fun hnil => absurd hnil (by simp), fun _ => ?_⟩
  by_cases hls : ls = []
  · rw [h.nothing hls, hls, hfirst]
    simp [closedLines]
  · rw [h.lines hls, hroom.run_appendMaking_again, closedLines, closedLines, List.flatMap_append,
      Utf8.encode_append]
    simp

/-- Calls that give results are logged, each as one line. -/
theorem logged_runAt {start made : Disk} {place : Place} (hrecord : w.settings.recordMetrics = true)
    (hroom : made.Room (Metric.logPath w.base w.settings.metricsDir) place)
    (hfirst : ∀ content : Bytes,
      (Disk.appendMaking (Metric.logPath w.base w.settings.metricsDir) content).run.run start =
        (.ok (), made.putNode place (.file content fileMode)))
    {calls : List (Text × Call)} {rs : List ToolResult} {s s' : Site σ} {ls : List Text}
    (h : Logged start made place ls s.disk) (hrun : (runAt w calls).run s = (rs.map .ok, s')) :
    rs.length = calls.length ∧
      Logged start made place (ls ++ (entriesOf calls rs).map lineOf) s'.disk := by
  induction calls generalizing rs s ls with
  | nil =>
    obtain ⟨hresults, rfl⟩ := Prod.mk.inj (show ([], s) = (rs.map Except.ok, s') from hrun)
    obtain rfl := List.map_eq_nil_iff.mp hresults.symm
    exact ⟨rfl, (List.append_nil ls).symm ▸ h⟩
  | cons call calls ih =>
    obtain ⟨time, c⟩ := call
    rw [run_runAt_cons] at hrun
    dsimp only at hrun
    obtain ⟨hresults, hend⟩ := Prod.mk.inj hrun
    cases rs with
    | nil => cases hresults
    | cons r rs =>
      obtain ⟨hr, hrs⟩ := List.cons.inj hresults
      -- The first call adds its line to those that were there, and the others follow it.
      have hdisk := disk_of_execute (r := r) hrecord (Prod.ext hr rfl)
      rw [Metric.line_entry] at hdisk
      have hlogged := h.append hroom hfirst (lineOf (Metric.loggedFields time c.tool c.args r))
      have hrest := ih (hdisk ▸ hlogged) (Prod.ext hrs hend)
      rw [List.append_assoc] at hrest
      exact ⟨congrArg Nat.succ hrest.1, hrest.2⟩

end Calls

/-! ## §4 The figures of the last calls -/

theorem forall₂_entriesOf {calls : List (Text × Call)} {rs : List ToolResult}
    (hlength : rs.length = calls.length) (hshort : ∀ r ∈ rs, r.details.Short) :
    List.Forall₂ Metric.LineOf ((entriesOf calls rs).map lineOf) (entriesOf calls rs) ∧
      List.Forall₂ Metric.Reports
        ((entriesOf calls rs).map fun fields => Json.keyed (fields.map Json.rereadField)) rs := by
  induction calls generalizing rs with
  | nil =>
    obtain rfl := List.eq_nil_of_length_eq_zero hlength
    exact ⟨.nil, .nil⟩
  | cons call calls ih =>
    cases rs with
    | nil => cases hlength
    | cons r rs =>
      obtain ⟨hr, hrs⟩ := List.forall_mem_cons.mp hshort
      obtain ⟨hlines, hreports⟩ := ih (Nat.succ.inj hlength) hrs
      exact ⟨.cons ⟨rfl, List.cons_ne_nil _ _, Metric.nodup_keys_loggedFields,
        Metric.plain_keys_loggedFields, Metric.loggable_loggedFields hr⟩ hlines,
        .cons Metric.reports_reread hreports⟩

/-- A log that is a file is read as a whole. -/
theorem Command.run_entriesAt {path : Text} {log : Bytes} {vs : List Value} {m : Machine}
    (hfile : m.disk.isFile path = true) (hread : m.disk.read path = .ok log)
    (hvalues : Metric.values log = .ok vs) :
    (entriesAt path).run.onMachine.run m = (.ok vs, m) := by
  have hanswer : (HostQuery.read path).answer.run m = (.ok log, m) := by
    rw [← hread]
    rfl
  have hthere : (HostQuery.isFile path).answer.run m = (true, m) := by
    rw [← hfile]
    rfl
  rw [entriesAt, run_bind, run_ask, hthere]
  dsimp only
  rw [if_pos rfl, run_bind, run_ask, hanswer]
  dsimp only
  rw [hvalues]
  rfl

theorem Command.run_entriesAt_of_no_file {path : Text} {m : Machine}
    (hfile : m.disk.isFile path = false) :
    (entriesAt path).run.onMachine.run m = (.ok [], m) := by
  have hthere : (HostQuery.isFile path).answer.run m = (false, m) := by
    rw [← hfile]
    rfl
  rw [entriesAt, run_bind, run_ask, hthere]
  rfl

/-- What was logged is read back. -/
theorem Logged.run_entriesAt {start made : Disk} {path : Text} {calls : List (Text × Call)}
    {rs : List ToolResult} {m : Machine}
    (hroom : made.Room path (Disk.placeOf start.workingDirectory path))
    (hnone : start.file? (Disk.placeOf start.workingDirectory path) = none)
    (h : Logged start made (Disk.placeOf start.workingDirectory path)
      ((entriesOf calls rs).map lineOf) m.disk)
    (hlines : List.Forall₂ Metric.LineOf ((entriesOf calls rs).map lineOf) (entriesOf calls rs)) :
    (Command.entriesAt path).run.onMachine.run m =
      (.ok ((entriesOf calls rs).map fun fields =>
        .mapping (Json.keyed (fields.map Json.rereadField))), m) := by
  by_cases hnil : (entriesOf calls rs).map lineOf = []
  · have hfile : m.disk.isFile path = false := by
      rw [h.nothing hnil]
      exact Disk.isFile_eq_false hnone
    rw [Command.run_entriesAt_of_no_file hfile, List.map_eq_nil_iff.mp hnil]
    rfl
  · have hdisk := h.lines hnil
    exact Command.run_entriesAt (hdisk ▸ hroom.isFile_log _) (hdisk ▸ hroom.read_log _)
      (Metric.values_log hlines)

/-- Calls that give results are logged as one line each, where no log was and
one can be written. Of the last calls, as many as are asked for, the figures
tell what came of them. -/
theorem figures_tell_last_calls {σ : Type} [FileStore (StateM σ)] {w : Workplace}
    {calls : List (Text × Call)} {s s' : Site σ} {rs : List ToolResult}
    (hrecord : w.settings.recordMetrics = true)
    (hnone : s.disk.file? (Disk.placeOf s.disk.workingDirectory
      (Metric.logPath w.base w.settings.metricsDir)) = none)
    (hlog : s.disk.CanLog (Metric.logPath w.base w.settings.metricsDir))
    (hrun : (runAt w calls).run s = (rs.map .ok, s')) (hshort : ∀ r ∈ rs, r.details.Short) :
    ∃ ls : List Text, ls.length = calls.length ∧ (∀ l ∈ ls, lf ∉ l) ∧
      ((s'.disk.file? (Disk.placeOf s.disk.workingDirectory
        (Metric.logPath w.base w.settings.metricsDir))).elim [] Prod.fst =
          Utf8.encode (closedLines ls)) ∧
      ∀ m : Machine, m.disk = s'.disk → ∃ vs,
        (Command.entriesAt (Metric.logPath w.base w.settings.metricsDir)).run.onMachine.run m =
          (.ok vs, m) ∧
        ∀ n : Nat, 1 ≤ n → ∃ f, Metric.figures (Metric.newest n vs) = .ok f ∧
          f.total = min n calls.length ∧ f.Tells (rs.drop (rs.length - n)) := by
  obtain ⟨made, hroom, hfirst⟩ := hlog.exists_room hnone
  have hstart : Logged s.disk made (Disk.placeOf s.disk.workingDirectory
      (Metric.logPath w.base w.settings.metricsDir)) [] s.disk := ⟨fun _ => rfl, fun h => absurd rfl h⟩
  obtain ⟨hlength, hlogged⟩ := logged_runAt hrecord hroom hfirst hstart hrun
  rw [List.nil_append] at hlogged
  obtain ⟨hlines, hreports⟩ := forall₂_entriesOf hlength hshort
  have hentries : (entriesOf calls rs).length = rs.length := by
    rw [entriesOf, List.length_zipWith, hlength, Nat.min_self]
  refine ⟨(entriesOf calls rs).map lineOf, ?_, ?_, ?_, fun m hm => ?_⟩
  · rw [List.length_map, hentries, hlength]
  · exact fun l hl => (Metric.notMem_of_printable (Metric.printable_lines hlines l hl)).1
  · by_cases hnil : (entriesOf calls rs).map lineOf = []
    · rw [hlogged.nothing hnil, hnone, hnil]
      rfl
    · rw [hlogged.lines hnil, Disk.file?, hroom.node?_log]
      rfl
  · refine ⟨_, Logged.run_entriesAt hroom hnone (hm ▸ hlogged) hlines, fun n hn => ?_⟩
    -- Entries and results are cut off alike, so those that are left still correspond.
    have hdropped := List.forall₂_drop (rs.length - n) hreports
    obtain ⟨f, hf, htells⟩ := Metric.figures_tells hdropped
    refine ⟨f, ?_, ?_, htells⟩
    · rw [Metric.newest_eq_drop hn, List.length_map, hentries, ← hf, List.map_drop, List.map_map]
      rfl
    · rw [htells.total, List.length_drop, hlength]
      omega

/-- A request one block of which is not found, and a cancelled call. -/
def twoCalls : List (Text × Call) := [
  ("2024-05-01T10:00:00", ⟨.diff, .mapping (textFields [("file_path", "a.txt"),
    ("diff", "<<<<<<< SEARCH\na\n=======\nA\n>>>>>>> REPLACE\n<<<<<<< SEARCH\nd\n=======\nD\n>>>>>>> REPLACE")]),
    none⟩),
  ("2024-05-01T10:00:01", ⟨.edit, .null, some fun _ => true⟩)]

/-- A directory where calls are logged. -/
def loggedPlace : Workplace := ⟨"/w", "/home", { recordMetrics := true }⟩

/-- Of the two calls one succeeds, and that partly. -/
theorem figures_tell_two_calls :
    ∃ (s s' : Site Memory) (rs : List ToolResult),
      s = .ofFile [97, 10, 98, 10] ∧ (runAt loggedPlace twoCalls).run s = (rs.map .ok, s') ∧
      rs.map (fun r => (r.success, r.isPartly)) = [(true, true), (false, false)] ∧
      ∃ ls : List Text, ls.length = twoCalls.length ∧ (∀ l ∈ ls, lf ∉ l) ∧
        ((s'.disk.file? (Disk.placeOf s.disk.workingDirectory
          (Metric.logPath loggedPlace.base loggedPlace.settings.metricsDir))).elim [] Prod.fst =
            Utf8.encode (closedLines ls)) ∧
        ∀ m : Machine, m.disk = s'.disk → ∃ vs,
          (Command.entriesAt (Metric.logPath loggedPlace.base
            loggedPlace.settings.metricsDir)).run.onMachine.run m = (.ok vs, m) ∧
          ∀ n : Nat, 1 ≤ n → ∃ f, Metric.figures (Metric.newest n vs) = .ok f ∧
            f.total = min n twoCalls.length ∧ f.Tells (rs.drop (rs.length - n)) := by
  obtain ⟨rs, hresults, hflags, hshort⟩ : ∃ rs : List ToolResult,
      ((runAt loggedPlace twoCalls).run (Site.ofFile [97, 10, 98, 10])).1 = rs.map .ok ∧
      rs.map (fun r => (r.success, r.isPartly)) = [(true, true), (false, false)] ∧
      ∀ r ∈ rs, r.details.Short :=
    ⟨((runAt loggedPlace twoCalls).run (Site.ofFile [97, 10, 98, 10])).1.filterMap Except.toOption,
      by decide +kernel⟩
  have hnone : (Site.ofFile [97, 10, 98, 10]).disk.file?
      (Disk.placeOf (Site.ofFile [97, 10, 98, 10]).disk.workingDirectory
        (Metric.logPath loggedPlace.base loggedPlace.settings.metricsDir)) = none := by
    decide +kernel
  have hlog : (Site.ofFile [97, 10, 98, 10]).disk.CanLog
      (Metric.logPath loggedPlace.base loggedPlace.settings.metricsDir) :=
    ⟨_, Prod.ext (by decide +kernel) rfl, by decide +kernel, by decide +kernel⟩
  have hrun : (runAt loggedPlace twoCalls).run (Site.ofFile [97, 10, 98, 10]) = (rs.map .ok, _) :=
    Prod.ext hresults rfl
  exact ⟨_, _, rs, rfl, hrun, hflags, figures_tell_last_calls rfl hnone hlog hrun hshort⟩

end Amend
