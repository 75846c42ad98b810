/-
Amend.Proofs.Staging — staged changes and the changes they stand for.

Staged over a store in memory, changes are meant to show what the same calls
would do to the store itself. The store with the staged changes carried out
(`Overlay.flush`) is that other store; each event of a call keeps it so
(`Staged.step`), hence so do whole calls (`Staged.call`) and sequences of
them (`staged_calls_match`). This rests on two conditions, since pending
paths are known by their spelling, and pending directories not at all: one
file is not named in two spellings, and no file is named where a directory
is pending (`Legible`). Without them a staged run can differ from the direct
one.

  §1 Carrying out what is staged.
  §2 One event.
  §3 Calls.
  §4 Committing.
-/
import Amend.Proofs.Stores

namespace Amend

/-! ## §1 Carrying out what is staged -/

namespace Memory

/-- The store with files written, one after the other. -/
def writeAll (m : Memory) (files : Table Text Bytes) : Memory :=
  files.foldl (fun m (path, content) => m.write path content) m

theorem writeAll_cons (m : Memory) (path : Text) (content : Bytes) (files : Table Text Bytes) :
    m.writeAll ((path, content) :: files) = (m.write path content).writeAll files := rfl

theorem makeDirs_write (m : Memory) (path dir : Text) (content : Bytes) :
    (m.write path content).makeDirs dir = (m.makeDirs dir).write path content := by
  by_cases h : dir = [] ∨ Path.normalize dir ∈ m.dirs <;> simp [makeDirs, write, h]

theorem makeDirs_writeAll (files : Table Text Bytes) (dir : Text) :
    ∀ m : Memory, (m.writeAll files).makeDirs dir = (m.makeDirs dir).writeAll files := by
  induction files with
  | nil => exact fun _ => rfl
  | cons e files ih =>
    intro m
    rw [writeAll_cons, writeAll_cons, ih, makeDirs_write]

theorem dirs_writeAll (files : Table Text Bytes) : ∀ m : Memory, (m.writeAll files).dirs = m.dirs := by
  induction files with
  | nil => exact fun _ => rfl
  | cons e files ih => exact fun m => ih (m.write e.1 e.2)

/-- Writing a file anew may as well be done before others are written. -/
theorem write_writeAll {path : Text} (content : Bytes) (files : Table Text Bytes)
    (hother : ∀ q ∈ files.keys, Path.normalize q ≠ Path.normalize path) :
    ∀ m : Memory, Path.normalize path ∈ m.files.keys →
      (m.writeAll files).write path content = (m.write path content).writeAll files := by
  induction files with
  | nil => exact fun _ _ => rfl
  | cons e files ih =>
    intro m hthere
    obtain ⟨q, b⟩ := e
    have hq : Path.normalize q ≠ Path.normalize path := hother q (by simp [Table.keys])
    have hcomm : (m.write q b).write path content = (m.write path content).write q b := by
      simp only [write, Table.put_comm hq hthere]
    have hrest := ih (fun r hr => hother r (List.mem_cons_of_mem _ hr)) (m.write q b)
      (Table.mem_keys_put.mpr (.inr hthere))
    rw [writeAll_cons, writeAll_cons, hrest, hcomm]

section Spelling

variable {path : Text} {files : Table Text Bytes} (hnodup : files.keys.Nodup)
  (hspelling : ∀ q ∈ files.keys, Path.normalize q = Path.normalize path → q = path)

include hnodup hspelling

/-- To write what is pending when one more write is, is to write it first and
that after it. -/
theorem writeAll_put (content : Bytes) :
    ∀ m : Memory, m.writeAll (files.put path content) = (m.writeAll files).write path content := by
  induction files with
  | nil => exact fun _ => rfl
  | cons e files ih =>
    intro m
    obtain ⟨q, b⟩ := e
    obtain ⟨hfresh, hrest⟩ := List.nodup_cons.mp hnodup
    have hspelling' : ∀ r ∈ Table.keys files, Path.normalize r = Path.normalize path → r = path :=
      fun r hr => hspelling r (List.mem_cons_of_mem _ hr)
    unfold Table.put
    split
    -- what was pending for the path is written over in its old place
    · rename_i hq
      obtain rfl : q = path := hq
      have hother : ∀ r ∈ Table.keys files, Path.normalize r ≠ Path.normalize q := by
        intro r hr hsame
        exact hfresh (hspelling' r hr hsame ▸ hr)
      have hthere : Path.normalize q ∈ (m.write q b).files.keys := Table.mem_keys_put.mpr (.inl rfl)
      rw [writeAll_cons, writeAll_cons, write_writeAll content files hother _ hthere]
      simp only [write, Table.put_put_self]
    · rw [writeAll_cons, writeAll_cons, ih hrest hspelling']

/-- A file holds what is pending for it, and what it held if nothing is. -/
theorem get?_writeAll : ∀ m : Memory, (m.writeAll files).files.get? (Path.normalize path) =
    (files.get? path).or (m.files.get? (Path.normalize path)) := by
  induction files with
  | nil => exact fun _ => rfl
  | cons e files ih =>
    intro m
    obtain ⟨q, b⟩ := e
    obtain ⟨hfresh, hrest⟩ := List.nodup_cons.mp hnodup
    have hspelling' : ∀ r ∈ Table.keys files, Path.normalize r = Path.normalize path → r = path :=
      fun r hr => hspelling r (List.mem_cons_of_mem _ hr)
    rw [writeAll_cons, ih hrest hspelling', Table.get?_cons]
    by_cases hq : q = path
    · subst hq
      have hnone : Table.get? files q = none := by
        rw [← Option.not_isSome_iff_eq_none]
        exact fun hsome => hfresh (Table.has_iff_mem_keys.mp hsome)
      simp [hnone, write]
    · have hne : Path.normalize path ≠ Path.normalize q := by
        intro hsame
        exact hq (hspelling q (by simp [Table.keys]) hsame.symm)
      simp [hq, write, Table.get?_put_of_ne _ b hne]

end Spelling

theorem mem_dirs_makeDirs {m : Memory} {dir key : Text} :
    key ∈ (m.makeDirs dir).dirs ↔ key ∈ m.dirs ∨ (dir ≠ [] ∧ key = Path.normalize dir) := by
  by_cases hnil : dir = []
  · simp [makeDirs, hnil]
  · by_cases hthere : Path.normalize dir ∈ m.dirs
    · simp only [makeDirs, hthere, or_true, if_true, hnil, ne_eq, not_false_eq_true, true_and]
      exact ⟨.inl, fun h => h.elim id (by rintro rfl; exact hthere)⟩
    · simp [makeDirs, hnil, hthere]

theorem mem_dirs_foldl_makeDirs {key : Text} (dirs : List Text) :
    ∀ m : Memory, key ∈ (dirs.foldl makeDirs m).dirs ↔
      key ∈ m.dirs ∨ ∃ dir ∈ dirs, dir ≠ [] ∧ key = Path.normalize dir := by
  induction dirs with
  | nil => simp
  | cons dir dirs ih =>
    intro m
    rw [List.foldl_cons, ih, mem_dirs_makeDirs]
    simp [or_assoc]

theorem files_foldl_makeDirs (dirs : List Text) :
    ∀ m : Memory, (dirs.foldl makeDirs m).files = m.files := by
  induction dirs with
  | nil => exact fun _ => rfl
  | cons dir dirs ih =>
    intro m
    rw [List.foldl_cons, ih, makeDirs]
    split <;> rfl

end Memory

/-- The store with all that is staged carried out. -/
def Overlay.flush (o : Overlay) (m : Memory) : Memory :=
  (o.dirs.foldl Memory.makeDirs m).writeAll o.pending

/-- The paths name their files in a store legibly: no file in two spellings,
and none where a directory may have to be made for another, unless something
is there already. -/
structure Legible (m : Memory) (places : List Text) : Prop where
  spelling : ∀ p ∈ places, ∀ q ∈ places, Path.normalize p = Path.normalize q → p = q
  folders : ∀ p ∈ places, ∀ q ∈ places,
    Path.normalize (Path.directory p) = Path.normalize q → Path.directory p = [] ∨ m.has q = true

/-- What is staged concerns these paths alone. -/
structure Overlay.Within (places : List Text) (o : Overlay) : Prop where
  nodup : o.pending.keys.Nodup
  pending : ∀ p ∈ o.pending.keys, p ∈ places
  dirs : ∀ d ∈ o.dirs, ∃ p ∈ places, d = Path.directory p

namespace Overlay.Within

variable {places : List Text} {o : Overlay} {m : Memory} {path : Text}

theorem write (h : o.Within places) (hpath : path ∈ places) (content : Bytes) :
    Overlay.Within places { o with pending := o.pending.put path content } where
  nodup := Table.nodup_keys_put h.nodup path content
  pending p hp := by
    rcases Table.mem_keys_put.mp hp with rfl | hp
    · exact hpath
    · exact h.pending p hp
  dirs := h.dirs

theorem makeDirs (h : o.Within places) (hpath : path ∈ places) :
    Overlay.Within places { o with dirs := o.dirs ++ [Path.directory path] } where
  nodup := h.nodup
  pending := h.pending
  dirs d hd := by
    rcases List.mem_append.mp hd with hd | hd
    · exact h.dirs d hd
    · exact ⟨path, hpath, List.mem_singleton.mp hd⟩

theorem flush_write (h : o.Within places) (hl : Legible m places) (hpath : path ∈ places)
    (content : Bytes) :
    Overlay.flush { o with pending := o.pending.put path content } m =
      (o.flush m).write path content :=
  Memory.writeAll_put h.nodup
    (fun q hq hsame => hl.spelling q (h.pending q hq) path hpath hsame) content _

theorem flush_makeDirs (dir : Text) :
    Overlay.flush { o with dirs := o.dirs ++ [dir] } m = (o.flush m).makeDirs dir := by
  rw [flush, flush, Memory.makeDirs_writeAll, List.foldl_append]
  rfl

/-- What is staged is read as if it were carried out. -/
theorem read_flush (h : o.Within places) (hl : Legible m places) (hpath : path ∈ places) :
    (o.flush m).read path =
      match o.pending.get? path with
      | some content => .ok content
      | none => m.read path := by
  have hget := Memory.get?_writeAll h.nodup
    (fun q hq hsame => hl.spelling q (h.pending q hq) path hpath hsame)
    (o.dirs.foldl Memory.makeDirs m)
  rw [Memory.read, flush, hget, Memory.files_foldl_makeDirs]
  cases o.pending.get? path <;> rfl

theorem has_flush (h : o.Within places) (hl : Legible m places) (hpath : path ∈ places) :
    (o.flush m).has path = (o.pending.has path || m.has path) := by
  have hget := Memory.get?_writeAll h.nodup
    (fun q hq hsame => hl.spelling q (h.pending q hq) path hpath hsame)
    (o.dirs.foldl Memory.makeDirs m)
  have hfiles : (o.flush m).files.has (Path.normalize path) =
      (o.pending.has path || m.files.has (Path.normalize path)) := by
    rw [Table.has, flush, hget, Memory.files_foldl_makeDirs, Option.isSome_or]
    rfl
  have hdirs : Path.normalize path ∈ (o.flush m).dirs ↔ Path.normalize path ∈ m.dirs ∨
      ∃ dir ∈ o.dirs, dir ≠ [] ∧ Path.normalize path = Path.normalize dir := by
    rw [flush, Memory.dirs_writeAll, Memory.mem_dirs_foldl_makeDirs]
  -- a pending directory of that name was there before
  have hpending : ∀ dir ∈ o.dirs, dir ≠ [] → Path.normalize path = Path.normalize dir →
      m.has path = true := by
    intro dir hdir hne hsame
    obtain ⟨p, hp, rfl⟩ := h.dirs dir hdir
    exact (hl.folders p hp path hpath hsame.symm).resolve_left hne
  rw [Bool.eq_iff_iff]
  simp only [Memory.has, hfiles, Bool.or_eq_true, List.contains_iff_mem, hdirs] at hpending ⊢
  constructor
  · rintro ((hp | hf) | hd | ⟨dir, hdir, hne, hsame⟩)
    · exact .inl hp
    · exact .inr (.inl hf)
    · exact .inr (.inr hd)
    · exact .inr (hpending dir hdir hne hsame)
  · rintro (hp | hf | hd)
    · exact .inl (.inl hp)
    · exact .inl (.inr hf)
    · exact .inr (.inl hd)

end Overlay.Within

/-! ## §2 One event -/

/-- A site in memory with changes staged over it. -/
abbrev Staging := StateT Overlay (StateM (Site Memory))

namespace Overlay

variable {o : Overlay} {base : Site Memory} {path : Text}

theorem reply_read {signal : Signal} {n : Nat} :
    ToolQuery.reply (m := Staging) signal (.read path) (n, o, base) =
      (match o.pending.get? path with
        | some content => .ok content
        | none => base.store.read path, n, o, base) := by
  change (fun r : ((Except FileError Bytes × Overlay) × Site Memory) => (r.1.1, n, r.1.2, r.2))
    (((match o.pending.get? path with
      | some content => _
      | none => _ : Staging (Except FileError Bytes)).run o).run base) = _
  split <;> rfl

theorem reply_has {signal : Signal} {n : Nat} :
    ToolQuery.reply (m := Staging) signal (.has path) (n, o, base) =
      (o.pending.has path || base.store.has path, n, o, base) := by
  change (fun r : ((Bool × Overlay) × Site Memory) => (r.1.1, n, r.1.2, r.2))
    (((if o.pending.has path = true then _ else _ : Staging Bool).run o).run base) = _
  split
  · rename_i h
    rw [h]
    rfl
  · rename_i h
    rw [Bool.not_eq_true] at h
    rw [h]
    rfl

theorem reply_write {signal : Signal} {n : Nat} {content : Bytes} :
    ToolQuery.reply (m := Staging) signal (.write path content) (n, o, base) =
      (.ok (), n, { o with pending := o.pending.put path content }, base) := rfl

theorem reply_makeDirs {signal : Signal} {n : Nat} :
    ToolQuery.reply (m := Staging) signal (.makeDirs path) (n, o, base) =
      (.ok (), n, { o with dirs := o.dirs ++ [path] }, base) := rfl

end Overlay

/-- The event asks for files at these places only, and for directories around
them. -/
def Event.Within (places : List Text) : Event → Prop
  | .read path _ | .write path _ _ | .has path _ => path ∈ places
  | .makeDirs dir _ => ∃ path ∈ places, dir = Path.directory path
  | .cancelled _ | .journal _ | .now _ | .append .. => True

/-- The direct site is the other one with what is staged carried out. -/
structure Staged (places : List Text) (o : Overlay) (base direct : Site Memory) : Prop where
  legible : Legible base.store places
  within : o.Within places
  carried : direct = { base with store := o.flush base.store }

variable {places : List Text} {signal : Signal}

/-- What an event tells with changes staged it tells with them carried out,
and they stay the same changes. -/
theorem Staged.step {e : Event} {n n' : Nat} {o o' : Overlay} {base base' direct : Site Memory}
    (h : Staged places o base direct) (hplaces : e.Within places)
    (hleads : e.Leads Staging signal (n, o, base) (n', o', base')) :
    ∃ direct', e.Leads (StateM (Site Memory)) signal (n, direct) (n', direct') ∧
      Staged places o' base' direct' ∧ base'.store = base.store := by
  obtain ⟨hlegible, hwithin, rfl⟩ := h
  cases e with
  | read path got =>
    rw [Event.Leads, Overlay.reply_read] at hleads
    obtain ⟨rfl, rfl, rfl, rfl⟩ := by simpa only [Prod.mk.injEq] using hleads
    refine ⟨_, ?_, ⟨hlegible, hwithin, rfl⟩, rfl⟩
    rw [← hwithin.read_flush hlegible hplaces]
    rfl
  | has path got =>
    rw [Event.Leads, Overlay.reply_has] at hleads
    obtain ⟨rfl, rfl, rfl, rfl⟩ := by simpa only [Prod.mk.injEq] using hleads
    refine ⟨_, ?_, ⟨hlegible, hwithin, rfl⟩, rfl⟩
    rw [← hwithin.has_flush hlegible hplaces]
    rfl
  | write path content got =>
    rw [Event.Leads, Overlay.reply_write] at hleads
    obtain ⟨rfl, rfl, rfl, rfl⟩ := by simpa only [Prod.mk.injEq] using hleads
    refine ⟨_, ?_, ⟨hlegible, hwithin.write hplaces content, rfl⟩, rfl⟩
    rw [hwithin.flush_write hlegible hplaces]
    rfl
  | makeDirs dir got =>
    rw [Event.Leads, Overlay.reply_makeDirs] at hleads
    obtain ⟨rfl, rfl, rfl, rfl⟩ := by simpa only [Prod.mk.injEq] using hleads
    obtain ⟨path, hpath, rfl⟩ := hplaces
    refine ⟨_, ?_, ⟨hlegible, hwithin.makeDirs hpath, rfl⟩, rfl⟩
    rw [Overlay.Within.flush_makeDirs]
    rfl
  | cancelled got =>
    cases signal with
    | none =>
      cases hleads
      exact ⟨_, rfl, ⟨hlegible, hwithin, rfl⟩, rfl⟩
    | some f =>
      cases hleads
      exact ⟨_, rfl, ⟨hlegible, hwithin, rfl⟩, rfl⟩
  | journal _ | now _ | append _ _ _ =>
    cases hleads
    exact ⟨_, rfl, ⟨hlegible, hwithin, rfl⟩, rfl⟩

/-! ## §3 Calls -/

theorem Staged.trail {es : List Event} {x x' : Nat × Overlay × Site Memory}
    (htrail : Trail Staging signal es x x') :
    ∀ {direct : Site Memory}, Staged places x.2.1 x.2.2 direct → (∀ e ∈ es, e.Within places) →
      ∃ direct', Trail (StateM (Site Memory)) signal es (x.1, direct) (x'.1, direct') ∧
        Staged places x'.2.1 x'.2.2 direct' ∧ x'.2.2.store = x.2.2.store := by
  induction htrail with
  | nil x => exact fun h _ => ⟨_, .nil _, h, rfl⟩
  | cons head _ ih =>
    intro direct h hplaces
    obtain ⟨direct₁, hhead, h₁, hstore₁⟩ := h.step (hplaces _ List.mem_cons_self) head
    obtain ⟨direct', htail, h', hstore⟩ := ih h₁ fun e he => hplaces e (List.mem_cons_of_mem _ he)
    exact ⟨direct', .cons hhead htail, h', hstore.trans hstore₁⟩

/-- The place a call is about, if it names one. -/
def Tool.place? (w : Workplace) (args : Value) : Option Text :=
  match pathGiven args with
  | .text path => some (Path.resolve w.home w.base path)
  | _ => none

theorem within_of_quiet {es : List Event} (h : ∀ e ∈ quiet es, e.Within places) :
    ∀ e ∈ es, e.Within places := by
  intro e he
  by_cases hrecord : e.isRecord = true
  · cases e with
    | journal _ | now _ | append _ _ _ => trivial
    | _ => cases hrecord
  · exact h e (List.mem_filter.mpr ⟨he, by simpa using hrecord⟩)

theorem Course.within {place : Text} {absent : Refusal} {decide : Bytes → Decision}
    {es : List Event} {out : Except Failure ToolResult} (h : Course place absent decide es out)
    (hplace : place ∈ places) : ∀ e ∈ es, e.Within places := by
  cases h <;> simp [Event.Within, hplace]

theorem EditTool.Creation.within {w : Workplace} {r : Request} {place : Text} {es : List Event}
    {out : Except Failure ToolResult} (h : Creation w r place es out) (hplace : place ∈ places) :
    ∀ e ∈ es, e.Within places := by
  have hdir : ∃ p ∈ places, Path.directory place = Path.directory p := ⟨place, hplace, rfl⟩
  cases h <;> simp [Event.Within, hplace, hdir]

theorem Tool.Attempt.within {t : Tool} {w : Workplace} {args : Value} {es : List Event}
    {out : Except Failure ToolResult} (h : Attempt w t args es out)
    (hplaces : ∀ p, place? w args = some p → p ∈ places) : ∀ e ∈ es, e.Within places := by
  have named {fields : List (Value × Value)} {path : Text}
      (hpath : Value.field? fields "file_path" = some (.text path)) :
      place? w (.mapping fields) = some (Path.resolve w.home w.base path) := by
    rw [place?, pathGiven, hpath]
    rfl
  cases h with
  | cancelled => simp [Event.Within]
  | rejected _ _ => simp [Event.Within]
  | created _ path _ course =>
    exact List.forall_mem_cons.mpr ⟨trivial, course.within (hplaces _ (named path))⟩
  | edited _ path _ _ _ course =>
    exact List.forall_mem_cons.mpr ⟨trivial, course.within (hplaces _ (named path))⟩
  | patched path _ _ course =>
    exact List.forall_mem_cons.mpr ⟨trivial, course.within (hplaces _ (named path))⟩

/-- A call of a tool: its arguments, and when it is cancelled. -/
structure Call where
  tool : Tool
  args : Value
  signal : Signal

/-- Carries calls out, one after the other. -/
def runCalls {m : Type → Type} [Monad m] [Surroundings m] (w : Workplace) (calls : List Call) :
    m (List (Except Fault ToolResult)) :=
  calls.mapM fun c => runTool c.signal (c.tool.execute w c.args)

open Stateful (exec exec_pure exec_bind exec_lift exec_get exec_set)

theorem exec_runCalls_cons {m : Type → Type} {τ : Type} [Monad m] [LawfulMonad m] [Surroundings m]
    [Stateful m τ] (w : Workplace) (c : Call) (calls : List Call) (t : τ) :
    exec (runCalls (m := m) w (c :: calls)) t =
      ((exec (runTool (m := m) c.signal (c.tool.execute w c.args)) t).1 ::
          (exec (runCalls (m := m) w calls)
            (exec (runTool (m := m) c.signal (c.tool.execute w c.args)) t).2).1,
        (exec (runCalls (m := m) w calls)
          (exec (runTool (m := m) c.signal (c.tool.execute w c.args)) t).2).2) := by
  rw [runCalls, List.mapM_cons, exec_bind, exec_bind, exec_pure]
  rfl

/-- A call answers the same, staged or not. -/
theorem Staged.call {w : Workplace} {c : Call} {o : Overlay} {base direct : Site Memory}
    (h : Staged places o base direct) (hplaces : ∀ p, Tool.place? w c.args = some p → p ∈ places) :
    ∃ o' base' direct' r,
      exec (runTool (m := Staging) c.signal (c.tool.execute w c.args)) (o, base) = (r, o', base') ∧
      exec (runTool (m := StateM (Site Memory)) c.signal (c.tool.execute w c.args)) direct =
        (r, direct') ∧
      Staged places o' base' direct' ∧ base'.store = base.store := by
  have hrun : Run (c.tool.execute w c.args) (Action.events Staging c.signal _ (0, o, base)) _ :=
    run_events (c.tool.execute w c.args) (0, o, base)
  have htrail : Trail Staging c.signal _ (0, o, base) _ :=
    trail_events (c.tool.execute w c.args) (0, o, base)
  obtain ⟨reached, hattempt, -⟩ := Tool.run_execute hrun
  obtain ⟨direct', htrail', h', hstore⟩ :=
    Staged.trail htrail h (within_of_quiet (hattempt.within hplaces))
  refine ⟨_, _, direct', _, exec_runTool (m := Staging) _ _, ?_, h', hstore⟩
  rw [exec_runTool, follow_eq_of_run hrun htrail']

/-- Calls answer the same one after the other, staged or not. -/
theorem Staged.calls {w : Workplace} (calls : List Call) :
    ∀ {o : Overlay} {base direct : Site Memory}, Staged places o base direct →
      (∀ c ∈ calls, ∀ p, Tool.place? w c.args = some p → p ∈ places) →
      ∃ o' base' direct' rs,
        exec (runCalls (m := Staging) w calls) (o, base) = (rs, o', base') ∧
        exec (runCalls (m := StateM (Site Memory)) w calls) direct = (rs, direct') ∧
        Staged places o' base' direct' ∧ base'.store = base.store := by
  induction calls with
  | nil => exact fun h _ => ⟨_, _, _, [], rfl, rfl, h, rfl⟩
  | cons c calls ih =>
    intro o base direct h hplaces
    obtain ⟨o₁, base₁, direct₁, r, hstaged, hdirect, h₁, hstore₁⟩ :=
      h.call (hplaces c List.mem_cons_self)
    obtain ⟨o', base', direct', rs, hstaged', hdirect', h', hstore⟩ :=
      ih h₁ fun c' hc' => hplaces c' (List.mem_cons_of_mem c hc')
    refine ⟨o', base', direct', r :: rs, ?_, ?_, h', hstore.trans hstore₁⟩
    · rw [exec_runCalls_cons, hstaged, hstaged']
    · rw [exec_runCalls_cons, hdirect, hdirect']

/-! ## §4 Committing -/

namespace Overlay

theorem exec_eq_iff {α : Type} {x : Staging α} {o o' : Overlay} {base base' : Site Memory} {a : α} :
    exec x (o, base) = (a, o', base') ↔ (x.run o).run base = ((a, o'), base') := by
  change (((x.run o).run base).1.1, ((x.run o).run base).1.2, ((x.run o).run base).2) = _ ↔ _
  constructor
  · intro h
    cases h
    rfl
  · intro h
    rw [h]

section Beneath

variable {m : Type → Type} {τ : Type} [Monad m] [FileStore m] [Stateful m τ] (view : Memory → τ)
  (hmake : ∀ dir s, exec (FileStore.makeDirs dir : m (Except FileError Unit)) (view s) =
    (.ok (), view (s.makeDirs dir)))
  (hwrite : ∀ path content s, exec (FileStore.write path content : m (Except FileError Unit))
    (view s) = (.ok (), view (s.write path content)))

include hmake in
theorem exec_makeAll (dirs : List Text) : ∀ s : Memory,
    exec (makeAll dirs : m (Except FileError Unit)) (view s) =
      (.ok (), view (dirs.foldl Memory.makeDirs s)) := by
  induction dirs with
  | nil => exact fun _ => by rw [makeAll, exec_pure, List.foldl_nil]
  | cons dir dirs ih =>
    intro s
    rw [makeAll, exec_bind, hmake]
    exact ih (s.makeDirs dir)

include hwrite in
theorem exec_writeAll (files : Table Text Bytes) : ∀ s : Memory,
    exec (writeAll files : m (Except FileError Unit)) (view s) =
      (.ok (), view (s.writeAll files)) := by
  induction files with
  | nil => exact fun _ => by rw [writeAll, exec_pure]; rfl
  | cons e files ih =>
    intro s
    rw [writeAll, exec_bind, hwrite]
    exact ih (s.write e.1 e.2)

include hmake hwrite in
/-- To commit over a state that a store in memory is seen in is to carry out
what is staged. -/
theorem exec_commit_view (o : Overlay) (s : Memory) :
    exec (commit : StateT Overlay m (Except FileError (List Text))) (o, view s) =
      (.ok o.pending.keys, {}, view (o.flush s)) := by
  rw [commit, exec_bind, exec_get, exec_bind, exec_lift, exec_makeAll view hmake]
  dsimp only
  rw [exec_bind, exec_lift, exec_writeAll view hwrite]
  dsimp only
  rw [exec_bind, exec_set, exec_pure]
  rfl

end Beneath

/-- To commit is to carry out what is staged. -/
theorem exec_commit (o : Overlay) (base : Site Memory) :
    exec (commit : Staging (Except FileError (List Text))) (o, base) =
      (.ok o.pending.keys, {}, { base with store := o.flush base.store }) :=
  exec_commit_view (fun s => { base with store := s }) (fun _ _ => rfl) (fun _ _ _ => rfl) o base.store

end Overlay

/-- Calls that name their files legibly answer the same staged over a store
in memory and done to it directly. Staging them leaves the store alone, and
to commit them afterwards leaves what the direct calls leave. -/
theorem staged_calls_match (w : Workplace) (calls : List Call) (s : Site Memory)
    (hlegible : Legible s.store (calls.filterMap fun c => Tool.place? w c.args)) :
    ∃ rs o staged direct,
      ((runCalls w calls : Staging (List (Except Fault ToolResult))).run {}).run s =
        ((rs, o), staged) ∧
      (runCalls w calls : StateM (Site Memory) (List (Except Fault ToolResult))).run s =
        (rs, direct) ∧
      staged.store = s.store ∧
      ((Overlay.commit : Staging (Except FileError (List Text))).run o).run staged =
        ((.ok o.pending.keys, {}), direct) := by
  have hstart : Staged (calls.filterMap fun c => Tool.place? w c.args) {} s s :=
    ⟨hlegible, ⟨.nil, nofun, nofun⟩, rfl⟩
  obtain ⟨o, staged, direct, rs, hstaged, hdirect, hend, hstore⟩ :=
    Staged.calls (w := w) calls hstart fun c hc p hp => List.mem_filterMap.mpr ⟨c, hc, hp⟩
  have hcommit := Overlay.exec_commit o staged
  rw [← hend.carried] at hcommit
  exact ⟨rs, o, staged, direct, Overlay.exec_eq_iff.mp hstaged, hdirect, hstore,
    Overlay.exec_eq_iff.mp hcommit⟩

/-- A file is created in a new directory and then edited. -/
theorem staged_calls_in_new_directory :
    ∃ (calls : List Call) (s : Site Memory), s = .ofFile [49] ∧
      calls = [
        ⟨.edit, .mapping (textFields [("file_path", "d/x.txt"), ("old_string", ""),
          ("new_string", "1")]), none⟩,
        ⟨.edit, .mapping (textFields [("file_path", "d/x.txt"), ("old_string", "1"),
          ("new_string", "2")]), none⟩] ∧
      Legible s.store (calls.filterMap fun c => Tool.place? ⟨"/w", "/home", {}⟩ c.args) ∧
      ∃ rs o staged direct,
        ((runCalls ⟨"/w", "/home", {}⟩ calls : Staging _).run {}).run s = ((rs, o), staged) ∧
        (runCalls ⟨"/w", "/home", {}⟩ calls : StateM (Site Memory) _).run s = (rs, direct) ∧
        ((Overlay.commit : Staging _).run o).run staged = ((.ok o.pending.keys, {}), direct) := by
  have hlegible : Legible (Site.ofFile [49]).store (List.filterMap
      (fun c : Call => Tool.place? ⟨"/w", "/home", {}⟩ c.args) [
        ⟨.edit, .mapping (textFields [("file_path", "d/x.txt"), ("old_string", ""),
          ("new_string", "1")]), none⟩,
        ⟨.edit, .mapping (textFields [("file_path", "d/x.txt"), ("old_string", "1"),
          ("new_string", "2")]), none⟩]) := ⟨by decide +kernel, by decide +kernel⟩
  obtain ⟨rs, o, staged, direct, hstaged, hdirect, -, hcommit⟩ := staged_calls_match _ _ _ hlegible
  exact ⟨_, _, rfl, rfl, hlegible, rs, o, staged, direct, hstaged, hdirect, hcommit⟩

/-- An edit in another spelling does not see the staged edit before it: it
fails where the direct one succeeds, and the file committed is another. -/
theorem staged_edit_lost_in_other_spelling :
    ∃ (calls : List Call) (s : Site Memory), s = .ofFile [49] ∧
      calls = [
        ⟨.edit, .mapping (textFields [("file_path", "a.txt"), ("old_string", "1"),
          ("new_string", "2")]), none⟩,
        ⟨.edit, .mapping (textFields [("file_path", "/w/./a.txt"), ("old_string", "2"),
          ("new_string", "3")]), none⟩] ∧
      ((runCalls ⟨"/w", "/home", {}⟩ calls : StateM (Site Memory) _).run s).1.map
        (fun r => r.toOption.map ToolResult.success) = [some true, some true] ∧
      fileAt ((runCalls ⟨"/w", "/home", {}⟩ calls : StateM (Site Memory) _).run s).2.store
        "/w/a.txt" = some [51] ∧
      (((runCalls ⟨"/w", "/home", {}⟩ calls : Staging _).run {}).run s).1.1.map
        (fun r => r.toOption.map ToolResult.success) = [some true, some false] ∧
      fileAt (((do let _ ← runCalls ⟨"/w", "/home", {}⟩ calls; Overlay.commit : Staging _).run
        {}).run s).2.store "/w/a.txt" = some [50] :=
  ⟨_, _, rfl, rfl, by decide +kernel, by decide +kernel, by decide +kernel, by decide +kernel⟩

-- A pending directory is not seen either: a file is created in its place, which
-- fails where the directory has been made.
example :
    let calls : List Call := [
      ⟨.edit, .mapping (textFields [("file_path", "d/x.txt"), ("old_string", ""),
        ("new_string", "1")]), none⟩,
      ⟨.edit, .mapping (textFields [("file_path", "d"), ("old_string", ""),
        ("new_string", "2")]), none⟩]
    ((runCalls ⟨"/w", "/home", {}⟩ calls : StateM (Site Memory) _).run (.ofFile [49])).1.map
        (fun r => r.toOption.map ToolResult.success) = [some true, some false] ∧
      (((runCalls ⟨"/w", "/home", {}⟩ calls : Staging _).run {}).run (.ofFile [49])).1.1.map
        (fun r => r.toOption.map ToolResult.success) = [some true, some true] := by
  decide +kernel

end Amend
