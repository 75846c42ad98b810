/-
Amend.Proofs.Transparency — line endings make no difference to a call.

A tool reads a file as text whose lines end in line feeds and writes it with
the endings it had. So where two files are read as the same text, and what is
written to the one is a function of what is written to the other
(`Rendered`), every call goes alike on both (`alike_execute`). A file with
line feeds alone and the same file with carriage returns before them are two
such files (`rendered_withReturns`). Where a text that is to be written has no
bytes, neither file gets it, and only the place at fault is another.

  §1 Files rendered otherwise — what is decided on them.
  §2 Calls                    — an edit of the file goes alike, and so does
                                everything before and after it.
  §3 Line endings.
-/
import Amend.Proofs.Coupling
import Amend.Proofs.Returns

namespace Amend

open FileTable (files)

variable {σ : Type} [FileStore (StateM σ)] [ExchangeStore σ]
variable {signal : Signal} {key : Text} {f : Bytes → Bytes} {raw : Bytes}

/-! ## §1 Files rendered otherwise -/

/-- What is written to the one file and to the other: the function makes the
second of the first, or neither has bytes, for the same surrogate. -/
inductive Rewritten (f : Bytes → Bytes) :
    Except Utf8.Unencodable Bytes → Except Utf8.Unencodable Bytes → Prop
  | bytes (content : Bytes) : Rewritten f (.ok content) (.ok (f content))
  | moved {u u' : Utf8.Unencodable} (code : u'.code = u.code) (count : u'.count = u.count) :
    Rewritten f (.error u) (.error u')

theorem Rewritten.id (content : Except Utf8.Unencodable Bytes) :
    Rewritten (fun bs => bs) content content := by
  cases content with
  | ok bs => exact .bytes bs
  | error u => exact .moved rfl rfl

/-- The function makes other bytes of a file that a tool reads as the same
text, and of all that it then writes. -/
structure Rendered (f : Bytes → Bytes) (raw : Bytes) : Prop where
  content : contentOf (f raw) = contentOf raw
  written : ∀ t, Rewritten f (Utf8.tryEncode (LineEnding.restore t (endingOf raw)))
    (Utf8.tryEncode (LineEnding.restore t (endingOf (f raw))))

/-- The decisions are the same, but for the content to be written. -/
inductive Decision.Alike (f : Bytes → Bytes) : Decision → Decision → Prop
  | refuse (why : Failure) : Alike f (.refuse why) (.refuse why)
  | keep (answer : ToolResult) : Alike f (.keep answer) (.keep answer)
  | rewrite {content content' : Except Utf8.Unencodable Bytes} (note : Record)
    (answer : ToolResult) (contents : Rewritten f content content') :
    Alike f (.rewrite content note answer) (.rewrite content' note answer)

theorem Decision.Alike.id (d : Decision) : Alike (fun bs => bs) d d := by
  cases d with
  | refuse why => exact .refuse why
  | keep answer => exact .keep answer
  | rewrite content note answer => exact .rewrite note answer (.id content)

theorem EditTool.decide_rendered (h : Rendered f raw) (w : Workplace) (r : Request) :
    (decide w r raw).Alike f (decide w r (f raw)) := by
  have hcontent : LineEnding.normalize (Utf8.decode (f raw)) =
      LineEnding.normalize (Utf8.decode raw) := h.content
  simp only [decide, hcontent]
  split
  · exact .refuse _
  · split
    · exact .keep _
    · exact .rewrite _ _ (h.written _)

theorem DiffTool.decide_rendered (h : Rendered f raw) (w : Workplace) (r : Request) :
    (decide w r raw).Alike f (decide w r (f raw)) := by
  have hcontent : LineEnding.normalize (Utf8.decode (f raw)) =
      LineEnding.normalize (Utf8.decode raw) := h.content
  simp only [decide, hcontent]
  split
  · exact .refuse _
  · split
    · exact .keep _
    · exact .rewrite _ _ (h.written _)

/-! ## §2 Calls -/

/-- An edit of a file goes alike if the decision on the file does. -/
theorem alike_onFile {place : Text} {absent : Refusal} {records : Bytes → List Record}
    {decide : Bytes → Decision} (hrecords : records (f raw) = records raw)
    (hdecide : (decide raw).Alike f (decide (f raw))) :
    Alike σ signal key f raw (Step.onFile place absent records decide).run
      (Step.onFile place absent records decide).run := by
  refine Alike.ask_bind (by trivial) fun there => ?_
  cases there with
  | false => exact Alike.throw _
  | true =>
    refine Alike.read_bind place fun b hb => ?_
    have hrecords' : records (if Path.normalize place = key then f b else b) = records b := by
      split
      · rename_i hplace
        rw [hb hplace, hrecords]
      · rfl
    have hdecide' : (decide b).Alike (fun c => if Path.normalize place = key then f c else c)
        (decide (if Path.normalize place = key then f b else b)) := by
      split
      · rename_i hplace
        rw [hb hplace]
        exact hdecide
      · exact .id _
    refine Alike.checkCancelled_bind ?_
    rw [hrecords']
    refine Alike.journal_bind _ ?_
    generalize decide (if Path.normalize place = key then f b else b) = decision at hdecide' ⊢
    generalize decide b = decided at hdecide' ⊢
    cases hdecide' with
    | refuse why => exact Alike.throw why
    | keep answer => exact Alike.done _
    | rewrite note answer contents =>
      refine Alike.checkCancelled_bind ?_
      cases contents with
      | moved hcode hcount => exact Alike.done_moved hcode hcount
      | bytes content =>
        refine Alike.write_bind place content fun after => ?_
        exact Alike.journal_bind [note] (Alike.done _)

/-- A file that is there is not created, and no other file shows a
difference. -/
theorem alike_create (w : Workplace) (r : EditTool.Request) (place : Text) :
    Alike σ signal key f raw (EditTool.create w r place).run
      (EditTool.create w r place).run := by
  by_cases hplace : Path.normalize place = key
  · refine Coupled.ask
      (Q := fun c d s s' => c = true ∧ d = c ∧ Twin key f raw s s') (fun s s' hs => ?_)
      fun c d s s' hs => ?_
    · obtain ⟨hsame, htwin⟩ := hs.reply_plain signal (q := .has place) trivial
      refine ⟨?_, hsame, htwin⟩
      have hthere : ((files s.2.store).get? (Path.normalize place)).isSome := by
        rw [hplace, hs.1]
        rfl
      exact ExchangeStore.has_file place s.2.store hthere
    · obtain ⟨rfl, rfl, htwin⟩ := hs
      exact Alike.throw _ s s' htwin
  · refine Alike.ask_bind (by trivial) fun there => ?_
    cases there with
    | true => exact Alike.throw _
    | false =>
      refine Alike.checkCancelled_bind (Alike.demand_bind (by trivial) fun _ => ?_)
      rw [Step.writeText]
      cases Utf8.tryEncode r.replacement with
      | error u => exact Alike.throw _
      | ok content =>
        refine Alike.write_bind_of_ne hplace content fun after => ?_
        exact Alike.journal_bind _ (Alike.done _)

namespace Tool

theorem alike_run (h : Rendered f raw) (t : Tool) (w : Workplace) (fields : List (Value × Value)) :
    Alike σ signal key f raw (run t w fields).run (run t w fields).run := by
  cases t with
  | edit =>
    change Alike σ signal key f raw (EditTool.run w fields).run (EditTool.run w fields).run
    obtain ⟨r, hr, -⟩ | ⟨why, hwhy, -⟩ := EditTool.readRequest_eq fields
    · rw [EditTool.run, hr, pure_bind]
      dsimp only
      split
      · exact alike_create w r _
      · by_cases hsame : LineEnding.normalize r.search = LineEnding.normalize r.replacement
        · simp only [EditTool.edit, if_pos hsame]
          exact Alike.throw _
        · rw [EditTool.edit_eq_onFile hsame]
          exact alike_onFile (congrArg (resolveRecords · _ _) h.content)
            (EditTool.decide_rendered h w r)
    · rw [EditTool.run, hwhy, Step.throw_bind]
      exact Alike.throw why
  | diff =>
    change Alike σ signal key f raw (DiffTool.run w fields).run (DiffTool.run w fields).run
    obtain ⟨path, diff, blocks, -, -, -, hread⟩ | ⟨why, hwhy, -⟩ := DiffTool.readRequest_eq fields
    · rw [DiffTool.run, hread, bind_assoc]
      refine Alike.journal_bind _ ?_
      rw [pure_bind, DiffTool.apply_eq_onFile]
      exact alike_onFile (congrArg (applyRecords · _ _) h.content) (DiffTool.decide_rendered h w _)
    · rw [DiffTool.run, hwhy, Step.throw_bind]
      exact Alike.throw why

theorem alike_attempt (h : Rendered f raw) (t : Tool) (w : Workplace) (args : Value) :
    Alike σ signal key f raw (attempt t w args).run (attempt t w args).run := by
  refine Alike.checkCancelled_bind ?_
  split
  · exact alike_run h t w _
  · exact Alike.throw _

theorem alike_note (args : Value) (record : Text → Record) (r : ToolResult) :
    Alike σ signal key f raw (note args record r) (note args record r) := by
  rw [note]
  split
  · exact Alike.done _
  · exact Alike.done _
  · exact Alike.ask (by trivial) fun _ => Alike.done _

theorem alike_settle (h : Rendered f raw) (t : Tool) (w : Workplace) (args : Value) :
    Alike σ signal key f raw (settle t w args) (settle t w args) := by
  refine Alike.bind (alike_attempt h t w args) (fun after reached => ?_)
    fun after u u' hcode hcount => Alike.done_moved hcode hcount
  cases reached with
  | ok r => exact Alike.done _
  | error why =>
    cases why with
    | refused r => exact alike_note args _ _
    | file e =>
      by_cases hkind : e.kind = .invalidPath
      · simp only [if_pos hkind]
        exact Alike.done _
      · simp only [if_neg hkind]
        exact alike_note args _ _
    | fault f => exact Alike.done _

theorem alike_log (t : Tool) (w : Workplace) (args : Value) (r : ToolResult) :
    Alike σ signal key f raw (log t w args r) (log t w args r) := by
  rw [log]
  split
  · exact Alike.done _
  · refine Alike.ask (by trivial) fun time => ?_
    refine Alike.ask (by trivial) fun got => ?_
    cases got with
    | ok _ => exact Alike.done _
    | error e =>
      by_cases hkind : e.kind = .invalidPath
      · simp only [Action.bind, if_pos hkind]
        exact Alike.done _
      · simp only [Action.bind, if_neg hkind]
        exact Alike.ask (by trivial) fun _ => Alike.done _

theorem alike_execute (h : Rendered f raw) (t : Tool) (w : Workplace) (args : Value) :
    Alike σ signal key f raw (execute t w args) (execute t w args) := by
  refine Alike.bind (alike_settle h t w args) (fun after answer => ?_)
    fun after u u' hcode hcount => Alike.done_moved hcode hcount
  cases answer with
  | error fault => exact Alike.done _
  | ok r =>
    refine Alike.bind (alike_log t w args r) (fun after logged => ?_)
      fun after u u' hcode hcount => Alike.done_moved hcode hcount
    cases logged with
    | error fault => exact Alike.done _
    | ok _ => exact Alike.done _

end Tool

/-! ## §3 Line endings -/

theorem rendered_withReturns (hpair : ¬ [13, 10] <:+: raw) (hfeed : 10 ∈ raw) :
    Rendered withReturns raw where
  content := contentOf_withReturns hpair
  written t := by
    rw [endingOf_withReturns hfeed, endingOf_eq_lf hpair, LineEnding.restore_lf, LineEnding.restore,
      Utf8.tryEncode, Utf8.tryEncode, Utf8.unencodable?, Utf8.unencodable?]
    cases hbytes : Utf8.unencodableFrom 0 t with
    | some u =>
      obtain ⟨u', hu', hcode, hcount⟩ := Utf8.unencodableFrom_expand hbytes 0
      rw [hu']
      exact .moved hcode hcount
    | none =>
      have hencodable : Utf8.Encodable (LineEnding.restore t .crlf) :=
        Utf8.encodable_restore.mpr (Utf8.unencodableFrom_eq_none_iff.mp hbytes)
      have hexpanded : Utf8.unencodableFrom 0 (LineEnding.expand LineEnding.crlf.text t) = none :=
        Utf8.unencodableFrom_eq_none_iff.mpr hencodable
      rw [hexpanded, Utf8.encode_expand]
      exact .bytes _

/-- Let a file have line feeds, and none of them after a carriage return, as
in a file without carriage returns. Any call on a store with this file, and
the same call on the store where the file has a carriage return before each
line feed, come to the same result and leave the same records and logs and
the same files, but for a carriage return before each line feed of this one.
This is so for all arguments, whatever the store refuses, and whenever the
call is cancelled. A call that has no result, since what it would write has no
bytes, may only tell another place of the same surrogate. -/
theorem execute_line_endings {t : Tool} {w : Workplace} {args : Value} {s s' : Site σ}
    {out : Except Fault ToolResult} (hfile : (files s.store).get? key = some raw)
    (hpair : ¬ [13, 10] <:+: raw) (hfeed : 10 ∈ raw)
    (hrun : (runTool signal (t.execute w args) : StateM (Site σ) _).run s = (out, s')) :
    ∃ after out', (files s'.store).get? key = some after ∧
      (runTool signal (t.execute w args) : StateM (Site σ) _).run
        (s.exchange key (withReturns raw)) = (out', s'.exchange key (withReturns after)) ∧
      (∀ answer, out = .ok answer ↔ out' = .ok answer) ∧ SameBut out out' ∧
      (files (s'.exchange key (withReturns after)).store).get? key = some (withReturns after) := by
  have halike : Alike σ signal key withReturns raw (t.execute w args) (t.execute w args) :=
    Tool.alike_execute (rendered_withReturns hpair hfeed) t w args
  obtain ⟨hout, after, hafter, hstate⟩ := halike (0, s) (0, s.exchange key (withReturns raw))
    ⟨hfile, rfl⟩
  have hfirst : Stateful.exec (runTool (m := StateM (Site σ)) signal (t.execute w args)) s =
    (out, s') := hrun
  rw [exec_runTool, Prod.mk.injEq] at hfirst
  obtain ⟨rfl, rfl⟩ := hfirst
  refine ⟨after, _, hafter, ?_, fun answer => hout.eq_ok_iff, hout, ?_⟩
  · change Stateful.exec (runTool (m := StateM (Site σ)) signal (t.execute w args)) _ = _
    rw [exec_runTool, hstate]
  · rw [Site.exchange, ExchangeStore.files_exchange, Table.get?_put_self]

/-- One line of a file becomes two. -/
theorem edit_with_returns :
    (callOnFile .edit [("file_path", "a.txt"), ("old_string", "a"), ("new_string", "x\ny")]
      [97, 10, 98, 10]).2.store.files.get? "/w/a.txt" = some [120, 10, 121, 10, 98, 10] ∧
    callOnFile .edit [("file_path", "a.txt"), ("old_string", "a"), ("new_string", "x\ny")]
        [97, 13, 10, 98, 13, 10] =
      ((callOnFile .edit [("file_path", "a.txt"), ("old_string", "a"), ("new_string", "x\ny")]
          [97, 10, 98, 10]).1,
        (callOnFile .edit [("file_path", "a.txt"), ("old_string", "a"), ("new_string", "x\ny")]
          [97, 10, 98, 10]).2.exchange "/w/a.txt" [120, 13, 10, 121, 13, 10, 98, 13, 10]) := by
  have hedited : (callOnFile .edit [("file_path", "a.txt"), ("old_string", "a"),
      ("new_string", "x\ny")] [97, 10, 98, 10]).2.store.files.get? "/w/a.txt" =
        some [120, 10, 121, 10, 98, 10] := by
    decide +kernel
  have hfile : (files (Site.ofFile [97, 10, 98, 10]).store).get? "/w/a.txt" =
      some [97, 10, 98, 10] := by
    decide +kernel
  obtain ⟨answer, hanswer, -⟩ := exists_success (x := callOnFile .edit [("file_path", "a.txt"),
    ("old_string", "a"), ("new_string", "x\ny")] [97, 10, 98, 10]) (by decide +kernel)
  obtain ⟨after, out', hafter, hrun, hsame, -⟩ :=
    execute_line_endings hfile (by decide) (by decide) hanswer
  obtain rfl := Option.some.inj (hafter.symm.trans hedited)
  have hout : out' = (callOnFile .edit [("file_path", "a.txt"), ("old_string", "a"),
      ("new_string", "x\ny")] [97, 10, 98, 10]).1 := by
    rw [(hsame answer).mp rfl, hanswer]
  rw [← hout]
  exact ⟨hedited, hrun⟩

end Amend
